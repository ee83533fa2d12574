import Injection.Proofs.Settlement

/-!
A lazy handle fails as dropped exactly if its container is not alive at the moment when the handle looks for it. In a
living container the request behind the handle may fail in other ways, and if another handle fails as dropped below it,
the failure carries the key of the provider that passed it on. A build that fails, and a step that builds, leave nothing
alive that they built.
-/

namespace Injection

open Attempt Opening

/-! ### Failures -/

/-- A handle says that its container has been dropped, and no provider passed that on. -/
def SaysDropped (result : Except (Stop Failure) Value) : Prop := ∃ k, result = .error (.failed (.because (.dropped k)))

theorem Failure.broad_ne_dropped : Broad fun f => ∀ k, f ≠ .because (.dropped k) where
  through _ _ _ heq := nomatch congrArg Failure.trail heq
  cyclic _ _ heq := nomatch congrArg Failure.reason heq
  mismatch _ _ _ heq := nomatch congrArg Failure.reason heq

/-- A handle that has hold of its container does not say that the container has been dropped. -/
theorem Lookup.Genuine.fails_lookUpIn {require : Lookup} (h : require.Genuine) (l : Lazy) (cell : Cell) :
    Fails (fun f => ∀ k, f ≠ .because (.dropped k)) (l.lookUpIn require (some cell)) := by
  refine .closing _ (.bind (fails_typed Failure.broad_ne_dropped ?_) fun v => .perform (.keep l v))
  rcases h.cases 0 cell.container cell.key with ⟨inner, -, heq⟩ | heq <;> rw [heq]
  · rcases howner : cell.container.owner? cell.key with _ | ⟨o, b⟩
    · rw [Container.requireWith, howner]
      refine .bind (.perform (.tell _)) fun _ => .fail fun k heq => ?_
      cases congrArg Failure.reason heq
    · exact fails_requireWith Failure.broad_ne_dropped inner howner
  · intro e he
    cases Process.mayEnd_done.1 he

namespace Household

variable {w v : Household} {me : Thread} {l : Lazy} {cell : Cell} {result : Except (Stop Failure) Value}

/-! ### Gets and the moments that decide them -/

/-- A thread is about to get what a lazy handle stands for, and this is what it comes to in the end. -/
def Gets (w : Household) (me : Thread) (l : Lazy) (result : Except (Stop Failure) Value) (v : Household) : Prop :=
  ∃ (require : Lookup) (next : Except (Stop Failure) Value → Process (Option Upshot)), require.Genuine ∧
    w.team.threads me = (l.get require).run.bind next ∧ Pursues me Anything (l.get require).run w (.done result) v

/-- A thread that found nothing in a lazy handle looks for the container of the handle now, and this is what it comes to
in the end. -/
def Looks (w : Household) (me : Thread) (l : Lazy) (result : Except (Stop Failure) Value) (v : Household) : Prop :=
  ∃ (require : Lookup) (next : Except (Stop Failure) Value → Process (Option Upshot)), require.Genuine ∧
    w.team.threads me = (l.lookUp require).run.bind next ∧
    Pursues me Anything (l.lookUpIn require (w.store.reclaim l).2).run (w.turn me) (.done result) v

/-- A get gives what the handle has found, or there is a moment when it looks for the container of the handle. -/
theorem Gets.found_or_looks (hw : w.InOrder) (h : w.Gets me l result v) :
    (∃ u x, w.Leads u ∧ u.store.found? l = some x ∧ result = .ok x) ∨
      ∃ u, w.Leads u ∧ u.opens me = w.opens me ∧ u.Looks me l result v := by
  obtain ⟨require, next, hrequire, hp, hget⟩ := h
  have hfaces : w.Faces me (l.get require).run := ⟨hw, next, hp⟩
  rw [Lazy.run_get] at hfaces hget hp
  obtain ⟨m, found, hopens, hm, hreply, hrest⟩ := hget.performed hfaces
  obtain ⟨hnext, hopens', ⟨held, hheld⟩, -⟩ := (hfaces.pursue hm).act hreply
  have hp' := (hm.act hreply).threads hp
  have hleads : w.Leads (m.turn me) := hm.leads.step (.turn me)
  rcases found with _ | x
  · right
    rw [Option.elim_none, Lazy.run_lookUp] at hnext hrest hp'
    obtain ⟨u, cell?, hopens'', hu, hreply', hrest'⟩ := hrest.performed hnext
    obtain rfl : (u.store.reclaim l).2 = cell? := Option.some.inj hreply'
    refine ⟨u, hleads.trans hu.leads, hopens''.trans (hopens'.trans hopens), ?_⟩
    exact ⟨require, next, hrequire, hu.threads hp', hrest'⟩
  · left
    have hfound : (m.store.remember l).2 = some x := Option.some.inj hreply
    refine ⟨m.turn me, x, hleads, ?_, ?_⟩
    · rw [hheld]
      exact Store.found?_remember hfound
    · cases hrest.eq_done
      rfl

/-- A handle that looks for its container fails as dropped exactly if the container is not alive. -/
theorem Looks.saysDropped_iff (hw : w.InOrder) (hcell : w.store.cells l.id = some cell) (h : w.Looks me l result v) :
    SaysDropped result ↔ ¬ w.Alive cell.container := by
  obtain ⟨require, next, hrequire, -, hrest⟩ := h
  rw [← hw.isAlive_cell_iff hcell]
  by_cases halive : w.store.isAlive cell.container.id = true
  · refine iff_of_false ?_ (not_not.2 halive)
    rw [Store.reclaim_of_alive hcell halive] at hrest
    rintro ⟨k, rfl⟩
    exact hrequire.fails_lookUpIn l cell _ (hrest.mayEnd (.done _)) k rfl
  · refine iff_of_true ?_ halive
    rw [Store.reclaim_of_not_alive hcell halive] at hrest
    cases hrest.eq_done
    exact ⟨l.key, rfl⟩

/-- A handle whose container is gone fails at once. -/
theorem turn_of_dropped {require : Lookup} {next : Except (Stop Failure) Value → Process (Option Upshot)}
    (hcell : w.store.cells l.id = some cell) (hdropped : w.store.isAlive cell.container.id ≠ true)
    (hp : w.team.threads me = (l.lookUp require).run.bind next) :
    (w.turn me).team.threads me = next (.error (.failed (.because (.dropped l.key)))) := by
  have hreply : ((Action.reclaim l).perform me w.store).2 = some none :=
    congrArg (fun reply => some (Prod.snd reply)) (Store.reclaim_of_not_alive hcell hdropped)
  rw [Lazy.run_lookUp] at hp
  exact threads_turn_self hp hreply

/-! ### Handles and their containers -/

/-- A thread has just obtained a handle from a container, by whatever request. -/
def HasObtained (w : Household) (me : Thread) (c : Container) (l : Lazy) : Prop :=
  ∃ (require : Lookup) (requester : Option Key) (r : Request) (x : Resolved), require.Genuine ∧
    w.Ends me (Handle.request require ⟨c, requester⟩ r) (.ok x) ∧ x.lazy? = some l

section

variable {require : Lookup} {c : Container} {x : Resolved} {others : Household → Household → Prop}

theorem cells_of_resolve {q : Resolver} (hw : w.Faces me (q.resolve require c).run)
    (h : Pursues me others (q.resolve require c).run w (.done (.ok x)) v) (hx : x.lazy? = some l) :
    ∃ found, v.store.cells l.id = some ⟨c, l.key, found⟩ := by
  induction q generalizing x w v with
  | value k =>
      obtain ⟨result, -, hend⟩ := Process.mayEnd_bind.1 (h.mayEnd (.done _))
      rcases result with e | y <;> cases hend
      cases hx
  | config type =>
      obtain ⟨result, -, hend⟩ := Process.mayEnd_bind.1 (h.mayEnd (.done _))
      rcases result with e | y <;> cases hend
      cases hx
  | deferred type =>
      have hrun : ((Resolver.deferred type).resolve require c).run =
          .act (.postpone c (.ofType type)) fun l => .done (.ok (.deferred l)) := rfl
      rw [hrun] at hw h
      obtain ⟨u, l', -, hu, hreply, hrest⟩ := h.performed hw
      obtain ⟨hnext, -, ⟨held, hheld⟩, -⟩ := (hw.pursue hu).act hreply
      cases hrest.eq_done
      obtain rfl : l' = l := Option.some.inj hx
      obtain rfl : (u.store.postpone c (.ofType type)).2 = l' := Option.some.inj hreply
      have hcell : (u.turn me).store.cells (u.store.postpone c (.ofType type)).2.id =
          some ⟨c, .ofType type, none⟩ := by
        rw [hheld]
        exact setAt_self ..
      exact (hrest.leads.lasts hnext.order).exists_cell ⟨none, hcell⟩
  | optional inner ih =>
      rw [run_optional] at hw h
      obtain ⟨result, u, hinner, hrest⟩ := h.of_bind_done
      have hend := Process.mayEnd_done.1 (hrest.mayEnd (.done _))
      rcases result with (f | message | _) | y
      · rw [Resolver.weigh] at hend
        split at hend <;> cases hend
        cases hx
      · cases hend
      · cases hend
      · cases hend
        exact (hrest.leads.lasts (hw.left.pursue hinner).order).exists_cell (ih hw.left hinner hx)

theorem HasObtained.cells (h : w.HasObtained me c l) : ∃ found, w.store.cells l.id = some ⟨c, l.key, found⟩ := by
  obtain ⟨require, requester, r, x, -, ⟨v, hv, hbefore, hpursues⟩, hx⟩ := h
  cases r with
  | resolve q => exact cells_of_resolve ⟨hv.inOrder, hbefore⟩ hpursues hx
  | untyped k =>
      obtain ⟨result, -, hend⟩ := Process.mayEnd_bind.1 (hpursues.mayEnd (.done _))
      rcases result with e | y <;> cases hend
      cases hx
  | requester =>
      cases hpursues.mayEnd (.done _)
      cases hx

end

/-! ### Containers that are let go -/

/-- The same, as if one of the threads were in the midst of nothing. -/
def without (w : Household) (me : Thread) : Household := { w with opened := reopen w.opened me [] }

/-- A thread that has closed what it opened keeps nothing alive that was not there before. -/
theorem alive_without (hw : w.InOrder) (hv : v.InOrder) (hlast : w.store.Lasts v.store)
    (hopens : v.opens me = w.opens me) {c : Container} (hc : v.Alive c) (hnew : ¬ w.store.HasBuilt c) :
    (v.without me).Alive c := by
  have hothers {t : Thread} (ht : t ≠ me) : (v.without me).opens t = v.opens t := ofThread_reopen_of_ne _ _ _ ht
  induction hc with
  | held hc => exact .held hc
  | gathered hb hp => exact .gathered hb hp
  | @parent c p hc hp ih => exact .parent (ih fun hbuilt => hnew (hw.coherent.parents c p hbuilt hp).1) hp
  | @busy t c hc =>
      by_cases ht : t = me
      · exact absurd (hw.busy me c (hopens ▸ ht ▸ hc)) hnew
      · exact .busy (hothers ht ▸ hc)
  | @constructing t place o hplace ho hid =>
      by_cases ht : t = me
      · exact absurd (hw.hasBuilt_of_within hv.coherent hlast (hopens ▸ ht ▸ hplace) ho hid) hnew
      · exact .constructing (hothers ht ▸ hplace) ho hid

/-- If all is held that was held before, and nothing else, everything that is alive was there before. -/
theorem hasBuilt_of_same (hw : w.InOrder) (hv : v.InOrder) (hlast : w.store.Lasts v.store)
    (hstock : v.stock = w.stock) (hopens : ∀ t, v.opens t = w.opens t) {c : Container} (hc : v.Alive c) :
    w.store.HasBuilt c := by
  induction hc with
  | held hc => exact hw.stocked _ (hstock ▸ List.mem_append_left _ hc)
  | gathered hb hp => exact hw.stocked _ (hstock ▸ List.mem_append_right _ (List.mem_flatMap.2 ⟨_, hb, hp⟩))
  | parent hc hp ih => exact (hw.coherent.parents _ _ ih hp).1
  | @busy t c hc => exact hw.busy t c (hopens t ▸ hc)
  | @constructing t place o hplace ho hid => exact hw.hasBuilt_of_within hv.coherent hlast (hopens t ▸ hplace) ho hid

/-- The program gets hold of nothing as long as a thread goes on and nobody else does anything. -/
theorem Pursues.stays {α : Type} {others : Household → Household → Prop} {p q : Process α}
    (h : Pursues me others p w q v) (halone : ∀ s t, ¬ others s t) {next : α → Process (Option Upshot)}
    (hp : w.team.threads me = p.bind next) :
    ((q.bind next).yield = [] → v.stock = w.stock) ∧ ∀ t, t ≠ me → v.opens t = w.opens t := by
  induction h with
  | start => exact ⟨fun _ => rfl, fun _ _ => rfl⟩
  | @act a next' u r h hreply ih =>
      have hturn := turn_goes (h.threads hp) hreply
      refine ⟨fun hyield => ?_, fun t ht => (opens_turn_of_ne ht).trans (ih.2 t ht)⟩
      refine Eq.trans ?_ (ih.1 rfl)
      rw [hturn, stock, hyield]
      rfl
  | @wait a next' u h hreply ih =>
      refine ⟨fun hyield => ?_, fun t ht => (opens_turn_of_ne ht).trans (ih.2 t ht)⟩
      rw [turn_waits (h.threads hp) hreply]
      exact ih.1 hyield
  | others _ _ _ hdid => exact absurd hdid (halone _ _)

/-- What was built since an earlier state is alive only if others than a thread keep it so, and not at all if nobody else
did anything. -/
structure Releases (me : Thread) (others : Household → Household → Prop) (w v : Household) : Prop where
  among : ∀ c, v.Alive c → ¬ w.store.HasBuilt c → (v.without me).Alive c
  alone : (∀ s t, ¬ others s t) → ∀ c, v.Alive c → w.store.HasBuilt c

/-- A part of a process that closes what it opens releases what it builds. -/
theorem Pursues.releases {α : Type} {others : Household → Household → Prop} {p : Process α} {a : α}
    (h : Pursues me others p w (.done a) v) (hw : w.InOrder) {next : α → Process (Option Upshot)}
    (hp : w.team.threads me = p.bind next) (hopens : v.opens me = w.opens me) (hyield : (next a).yield = []) :
    Releases me others w v where
  among c hc hnew := alive_without hw (h.leads.inOrder hw) (h.leads.lasts hw) hopens hc hnew
  alone halone c hc := by
    obtain ⟨hstock, hrest⟩ := h.stays halone hp
    refine hasBuilt_of_same hw (h.leads.inOrder hw) (h.leads.lasts hw) (hstock hyield) (fun t => ?_) hc
    by_cases ht : t = me
    · exact ht ▸ hopens
    · exact hrest t ht

/-- A thread that is constructing something has not come to the end of its process. -/
theorem InOrder.yield_eq_nil (h : w.InOrder) {place : Address} (hplace : .within place ∈ w.opens me) :
    (w.team.threads me).yield = [] := by
  rcases hp : w.team.threads me with u | ⟨a, next⟩
  · obtain ⟨⟨cs, hopens⟩, -⟩ := h.opens_of_done hp
    rw [hopens] at hplace
    obtain ⟨c, -, hc⟩ := List.mem_map.1 hplace
    cases hc
  · rfl

/-! ### What it means that a container has been dropped -/

/-- In a state of a program, handles say that their containers have been dropped if that is so, and only then. -/
structure TellsDropped (w : Household) : Prop where
  /-- A container counts for alive as long as it is. -/
  counts : ∀ {c : Container}, w.store.HasBuilt c → (w.store.isAlive c.id = true ↔ w.Alive c)
  /-- A handle belongs for good to the container that it was obtained from. -/
  origin : ∀ {v : Household} {me : Thread} {c : Container} {l : Lazy}, w.HasObtained me c l → w.Leads v →
    ∃ found, v.store.cells l.id = some ⟨c, l.key, found⟩
  /-- A get gives what the handle has found, or there is a moment when it looks for the container of the handle. -/
  looks : ∀ {v : Household} {me : Thread} {l : Lazy} {result : Except (Stop Failure) Value}, w.Gets me l result v →
    (∃ u x, w.Leads u ∧ u.store.found? l = some x ∧ result = .ok x) ∨
      ∃ u, w.Leads u ∧ u.opens me = w.opens me ∧ u.Looks me l result v
  /-- That moment decides whether the get fails as dropped. -/
  decides : ∀ {v : Household} {me : Thread} {l : Lazy} {cell : Cell} {result : Except (Stop Failure) Value},
    w.store.cells l.id = some cell → w.Looks me l result v → (SaysDropped result ↔ ¬ w.Alive cell.container)
  /-- If the container is gone, the get fails in that very turn, whoever owns the key of the handle. -/
  atOnce : ∀ {me : Thread} {l : Lazy} {cell : Cell} {require : Lookup}
    {next : Except (Stop Failure) Value → Process (Option Upshot)}, w.store.cells l.id = some cell →
    ¬ w.Alive cell.container → w.team.threads me = (l.lookUp require).run.bind next →
    (w.turn me).team.threads me = next (.error (.failed (.because (.dropped l.key))))
  /-- So a get of a handle that has found nothing, and whose container is gone, takes just two turns. -/
  fails : ∀ {me : Thread} {l : Lazy} {cell : Cell} {require : Lookup}
    {next : Except (Stop Failure) Value → Process (Option Upshot)}, w.store.cells l.id = some cell →
    cell.found = none → ¬ w.Alive cell.container → w.team.threads me = (l.get require).run.bind next →
    ((w.turn me).turn me).team.threads me = next (.error (.failed (.because (.dropped l.key))))
  /-- A container below keeps the container of the handle alive, even if nothing else does. -/
  below : ∀ {v : Household} {me : Thread} {l : Lazy} {cell : Cell} {c : Container}
    {result : Except (Stop Failure) Value}, w.store.cells l.id = some cell → w.Alive c → c.Reaches cell.container →
    w.Looks me l result v → ¬ SaysDropped result
  /-- A thread that constructs a binding uses a handle that was obtained from the container of the binding, or from one
  of its ancestors. -/
  within : ∀ {u v : Household} {me you : Thread} {c o : Container} {place : Address} {l : Lazy}
    {result : Except (Stop Failure) Value}, u.HasObtained you c l → u.Leads w → .within place ∈ w.opens me →
    w.store.HasBuilt o → o.id = place.container → o.Reaches c → w.Gets me l result v → ¬ SaysDropped result
  /-- A build that fails releases what it built. -/
  failed : ∀ {v : Household} {me : Thread} {others : Household → Household → Prop} {op : Operation}
    {e : Stop BuildError}, w.team.threads me = .done none → (∀ c ∈ op.lent, w.Alive c) →
    Pursues me others (op.process Container.require) (w.begin me op) (.done (some (.built (.error e)))) v →
    v.opens me = op.lent.map .holding ∧ Releases me others w v
  /-- A step of a provider that builds a container releases it, whatever comes of the step. -/
  nested : ∀ {v : Household} {me : Thread} {others : Household → Household → Prop} {h : Handle} {place : Address}
    {require : Lookup} {p : Progress} {drafts : List Draft} {eager : Bool} {r : Request} {catches : Bool}
    {result : Except (Stop Failure) Progress} {next : Except (Stop Failure) Progress → Process (Option Upshot)},
    require.Genuine → .within place ∈ w.opens me → w.store.HasBuilt h.container → h.container.id = place.container →
    w.team.threads me = (h.nest require p drafts eager r catches).run.bind next →
    Pursues me others (h.nest require p drafts eager r catches).run w (.done result) v →
    v.opens me = w.opens me ∧ Releases me others w v

/-- A get does not fail as dropped if a container from which that of the handle is reached is alive all along. -/
theorem not_saysDropped_of_gets (hw : w.InOrder) {c d : Container}
    (hcell : ∃ found, w.store.cells l.id = some ⟨c, l.key, found⟩) (hd : d.Reaches c)
    (halive : ∀ u, w.Leads u → u.opens me = w.opens me → u.Alive d) (h : w.Gets me l result v) : ¬ SaysDropped result := by
  rcases h.found_or_looks hw with ⟨u, x, -, -, rfl⟩ | ⟨u, hleads, hopens, hlooks⟩
  · rintro ⟨k, ⟨⟩⟩
  · obtain ⟨found, hcell⟩ := (hleads.lasts hw).exists_cell hcell
    rw [hlooks.saysDropped_iff (hleads.inOrder hw) hcell, not_not]
    exact (halive u hleads hopens).of_reaches hd

/-- Whatever happened before, a handle says that its container has been dropped exactly if the container is not alive. -/
theorem tellsDropped_of_reached (h : w.Reached) : w.TellsDropped where
  counts hc := h.inOrder.isAlive_iff hc
  origin hobtained hleads := (hleads.lasts h.inOrder).exists_cell hobtained.cells
  looks hgets := hgets.found_or_looks h.inOrder
  decides hcell hlooks := hlooks.saysDropped_iff h.inOrder hcell
  atOnce hcell hdropped hp := turn_of_dropped hcell (mt (h.inOrder.isAlive_cell_iff hcell).1 hdropped) hp
  fails := by
    intro me l cell require next hcell hnone hdropped hp
    have hfound : w.store.found? l = none := by rw [Store.found?, hcell, Option.bind_some, hnone]
    obtain ⟨hlookUp, hstore⟩ := turn_of_unresolved hfound hp
    refine turn_of_dropped (hstore ▸ hcell) ?_ hlookUp
    rw [hstore]
    exact mt (h.inOrder.isAlive_cell_iff hcell).1 hdropped
  below hcell hc hreaches hlooks hdropped :=
    (hlooks.saysDropped_iff h.inOrder hcell).1 hdropped (hc.of_reaches hreaches)
  within := by
    intro u v me you c o place l result hobtained hleads hplace ho hid hreaches hgets
    have hcell := hobtained.cells
    obtain ⟨require, requester, r, x, -, hends, -⟩ := hobtained
    refine not_saysDropped_of_gets h.inOrder ((hleads.lasts hends.inOrder).exists_cell hcell) hreaches
      (fun m hm hopens => ?_) hgets
    exact .constructing (hopens ▸ hplace) ((hm.lasts h.inOrder).hasBuilt ho) hid
  failed := by
    intro v me others op e hidle hlent hpursues
    have hbegun : (w.begin me op).InOrder := h.inOrder.begin hidle hlent
    have hopens : (w.begin me op).opens me = op.lent.map .holding := ofThread_reopen_self ..
    have hp : (w.begin me op).team.threads me = (op.process Container.require).bind .done :=
      (setAt_self ..).trans (Process.bind_done _).symm
    have hknows (c) (hc : c ∈ op.lent) : (w.begin me op).store.Knows c :=
      hbegun.coherent.knows (h.inOrder.hasBuilt_of_alive (hlent c hc))
    have htidy : (op.process Container.require).Tidy me (op.lent.map .holding) (Upshot.Due (op.lent.map .holding))
        ((w.begin me op).opens me) (w.begin me op).store := hopens.symm ▸ tidy_operation hknows
    have hended := (hpursues.ended ⟨hbegun, .done, hp⟩ (fun u _ _ => Upshot.Due.mono u) htidy).1
    have hreleases := hpursues.releases hbegun hp (hended.trans hopens.symm) rfl
    exact ⟨hended, hreleases.among, hreleases.alone⟩
  nested := by
    intro v me others h' place require p drafts eager r catches result next hrequire hplace ho hid hp hpursues
    have hw := h.inOrder
    have hhand : AtHand w.store (w.opens me) h'.container := ⟨hw.exists_holding hplace ho hid, hw.coherent.knows ho⟩
    have htidy := tidy_nest (hrequire.tidy me) hhand h'.requester p drafts eager r catches
    have hended := (hpursues.ended ⟨hw, next, hp⟩ (fun _ _ _ _ h => h) htidy).1
    have hyield := (hpursues.leads.inOrder hw).yield_eq_nil (hended ▸ hplace)
    rw [hpursues.threads hp] at hyield
    exact ⟨hended, hpursues.releases hw hp hended hyield⟩

end Household

namespace Annex

open Household House

/-- The annex has no lamp of its own, but the house has one. -/
def annex : Container := ⟨1, "annex", .empty, [house], Graph.assemble .empty (Graph.inherited .empty [house])⟩

def cord : Lazy := ⟨2, .ofType lamp⟩

def extended : Household := ((built.finish 0).begin 0 (.build "annex" [house] [] false)).after (List.replicate 7 0)

/-- A handle on the lamp was obtained from the annex. -/
def wired : Household := ((extended.finish 0).begin 0 (.ask ⟨annex, none⟩ (.resolve (.deferred lamp)))).after [0]

/-- The annex is dropped, and the house is not. -/
def bereft : Household := (wired.finish 0).manage (Container.release (wired.finish 0).store.held [annex]) [house] []

/-- The handle is going to be used. -/
def dark : Household := bereft.begin 0 (.use cord)

theorem reached_dark : dark.Reached := by
  have hhouse : house ∈ (built.finish 0).containers := List.mem_cons_self
  have hextended : extended.Reached :=
    (reached_built.next rfl (List.forall_mem_singleton.2 (.held hhouse))).after _
  have hannex : annex ∈ (extended.finish 0).containers := List.mem_cons_self
  have hwired : wired.Reached :=
    (hextended.next rfl (List.forall_mem_singleton.2 (.held hannex))).after _
  have hbereft : bereft.Reached := (hwired.step (.finish 0 _ rfl)).step (.drop [] annex [house] rfl)
  exact hbereft.step (.begin 0 _ rfl (List.forall_mem_nil _))

end Annex

open Annex House in
/-- The annex is gone, so a handle from there fails, though the lamp is in the house, and the house is still there. -/
theorem Household.tellsDropped_annex : dark.Reached ∧ annex.owner? cord.key = some (house, lampBinding) ∧
    dark.Alive house ∧ ¬ dark.Alive annex ∧
    ((dark.turn 0).turn 0).team.threads 0 =
      .done (some (.used cord (.error (.failed (.because (.dropped cord.key)))))) := by
  have htells := tellsDropped_of_reached reached_dark
  have hbuilt : dark.store.HasBuilt annex := List.mem_of_getElem? (rfl : dark.store.history[0]? = some (.built annex))
  have hdropped : ¬ dark.Alive annex := mt (htells.counts hbuilt).2 (by decide)
  have hcell : dark.store.cells cord.id = some ⟨annex, cord.key, none⟩ := rfl
  have hbefore : dark.team.threads 0 = (cord.get Container.require).run.bind fun result =>
      .done (some (.used cord result)) := rfl
  exact ⟨reached_dark, rfl, .held List.mem_cons_self, hdropped, htells.fails hcell rfl hdropped hbefore⟩

end Injection
