import Injection.Proofs.Honesty
import Injection.Proofs.Interleaving
import Injection.Proofs.Upkeep

/-!
All that can be done with containers, by any number of threads in any order of their actions. The store stays honest in
every turn: places, handles and the history hold values of the types that the keys promise. What is asked for and used
therefore never fails for a value of another type, whether it is asked for from outside or by a provider.
-/

namespace Injection

/-! ### Stores -/

/-- Places, handles and the history keep what the keys promise. -/
structure Store.Honest (s : Store) : Prop where
  ready : ∀ p v, s.slots.slot p = .ready v → v.type = p.key.type
  cells : ∀ id cell, s.cells id = some cell →
    id < s.identities ∧ cell.container.Honest ∧ ∀ v, cell.found = some v → v.type = cell.key.type
  history : ∀ h ∈ s.history, h.Honest

/-- The handles are for values of the given types. -/
def Store.Agrees (types : Nat → TypeInfo) (s : Store) : Prop :=
  ∀ id cell, s.cells id = some cell → cell.key.type = types id

namespace Store

variable {types : Nat → TypeInfo} {s s' : Store} {me : Thread}

theorem exists_agrees (s : Store) : ∃ types, s.Agrees types := by
  refine ⟨fun id => ((s.cells id).map (·.key.type)).getD .configs, fun id cell hcell => ?_⟩
  simp only [hcell, Option.map_some, Option.getD_some]

theorem honest_empty : empty.Honest where
  ready _ _ h := Slot.noConfusion h
  cells _ _ h := by simp [empty] at h
  history _ h := (List.not_mem_nil h).elim

namespace Honest

theorem note (hs : s.Honest) (h : Happening) (hh : h.Honest) : (s.note h).Honest :=
  ⟨hs.ready, hs.cells, List.forall_mem_cons.2 ⟨hh, hs.history⟩⟩

theorem aside (hs : s.Honest) (hslots : s'.slots = s.slots) (hcells : s'.cells = s.cells)
    (hidentities : s.identities ≤ s'.identities) (hhistory : s'.history = s.history) : s'.Honest where
  ready := hslots ▸ hs.ready
  cells id cell hcell := (hs.cells id cell (hcells ▸ hcell)).imp_left fun hid => Nat.lt_of_lt_of_le hid hidentities
  history := hhistory ▸ hs.history

theorem container (hs : s.Honest) {c : Container} (hc : s.HasBuilt c) : c.Honest := hs.history _ hc

/-- A handle is written to. -/
theorem setCell (hs : s.Honest) {id : Nat} {cell : Cell} (hid : id < s.identities) (hcontainer : cell.container.Honest)
    (hfound : ∀ v, cell.found = some v → v.type = cell.key.type) :
    { s with cells := setAt s.cells id (some cell) }.Honest where
  ready := hs.ready
  cells id' cell' hcell' := by
    by_cases heq : id' = id
    · subst heq
      obtain rfl : cell = cell' := Option.some.inj ((setAt_self ..).symm.trans hcell')
      exact ⟨hid, hcontainer, hfound⟩
    · exact hs.cells id' cell' ((setAt_of_ne _ _ heq).symm.trans hcell')
  history := hs.history

theorem settle (hs : s.Honest) {place : Address} {v : Value} (hv : v.type = place.key.type) :
    { s with slots := s.slots.settle place v }.Honest where
  ready p w hw := by
    by_cases heq : p = place
    · subst heq
      obtain ⟨⟩ := (setAt_self ..).symm.trans hw
      exact hv
    · exact hs.ready p w ((setAt_of_ne _ _ heq).symm.trans hw)
  cells := hs.cells
  history := hs.history

theorem release (hs : s.Honest) (place : Address) : { s with slots := s.slots.release place }.Honest where
  ready p w hw := by
    refine hs.ready p w ?_
    change (s.slots.release place).slot p = .ready w at hw
    unfold Slots.release at hw
    split at hw
    · by_cases heq : p = place
      · subst heq
        exact nomatch (setAt_self ..).symm.trans hw
      · exact (setAt_of_ne _ _ heq).symm.trans hw
    · exact hw
  cells := hs.cells
  history := hs.history

theorem acquire (hs : s.Honest) (me : Thread) (place : Address) :
    { s with slots := (s.slots.acquire me place).1 }.Honest ∧
      ∀ v, (s.slots.acquire me place).2 = some (.ready v) → v.type = place.key.type := by
  unfold Slots.acquire
  split
  · next v hslot =>
    refine ⟨⟨hs.ready, hs.cells, hs.history⟩, ?_⟩
    rintro _ ⟨⟩
    exact hs.ready place v hslot
  · refine ⟨⟨fun p w hw => ?_, hs.cells, hs.history⟩, by simp⟩
    by_cases heq : p = place
    · subst heq
      exact nomatch (setAt_self ..).symm.trans hw
    · exact hs.ready p w ((setAt_of_ne _ _ heq).symm.trans hw)
  · next owner _ =>
    dsimp only
    split <;> exact ⟨⟨hs.ready, hs.cells, hs.history⟩, by simp⟩

theorem enter (hs : s.Honest) (me : Thread) (place : Address) : (s.enter me place).1.Honest := by
  unfold Store.enter
  split
  · exact hs.note (.refused place) trivial
  · exact (hs.note (.entered place) trivial).aside rfl rfl (Nat.le_refl _) rfl

theorem postpone (hs : s.Honest) {c : Container} (hc : c.Honest) (k : Key) : (s.postpone c k).1.Honest := by
  have hnext : s.nextIdentity.1.Honest := hs.aside rfl rfl (Nat.le_succ _) rfl
  exact hnext.setCell (Nat.lt_succ_self _) hc (by simp)

theorem remember (hs : s.Honest) (hagrees : s.Agrees types) (l : Lazy) :
    (s.remember l).1.Honest ∧ ∀ v, (s.remember l).2 = some v → v.type = types l.id := by
  unfold Store.remember
  split
  · exact ⟨hs, by simp⟩
  · next cell hcell =>
    split
    · next v hfound =>
      have hv := (hs.cells l.id cell hcell).2.2 v hfound
      refine ⟨hs.note (.used _ _ _) hv, ?_⟩
      rintro _ ⟨⟩
      exact hv.trans (hagrees l.id cell hcell)
    · exact ⟨hs, by simp⟩

theorem reclaim (hs : s.Honest) (hagrees : s.Agrees types) (l : Lazy) : (s.reclaim l).1.Honest ∧
    ∀ cell, (s.reclaim l).2 = some cell → cell.container.Honest ∧ cell.key.type = types l.id := by
  unfold Store.reclaim
  split
  · exact ⟨hs, by simp⟩
  · next cell hcell =>
    split
    · refine ⟨hs.aside rfl rfl (Nat.le_refl _) rfl, ?_⟩
      rintro _ ⟨⟩
      exact ⟨(hs.cells l.id cell hcell).2.1, hagrees l.id cell hcell⟩
    · exact ⟨hs, by simp⟩

theorem keep (hs : s.Honest) (hagrees : s.Agrees types) {l : Lazy} {v : Value} (hv : v.type = types l.id) :
    (s.keep l v).1.Honest ∧ (s.keep l v).2.type = types l.id := by
  unfold Store.keep
  split
  · exact ⟨hs, hv⟩
  · next cell hcell =>
    obtain ⟨hid, hcontainer, hfound⟩ := hs.cells l.id cell hcell
    have hkept : (cell.found.getD v).type = cell.key.type := by
      cases heq : cell.found with
      | none => exact hv.trans (hagrees l.id cell hcell).symm
      | some w => exact hfound w heq
    refine ⟨(hs.note (.used _ _ _) hkept).setCell hid hcontainer ?_, hkept.trans (hagrees l.id cell hcell)⟩
    rintro _ ⟨⟩
    exact hkept

end Honest

end Store

/-! ### Turns -/

section Turns

variable {types : Nat → TypeInfo} {s : Store} {me : Thread} {a : Action}

theorem Store.Agrees.of_perform (hs : s.Honest) (h : (a.perform me s).1.Agrees types) : s.Agrees types := by
  intro id cell hcell
  obtain ⟨found, hcell', -⟩ := Action.cells_perform (hs.cells id cell hcell).1 hcell
  exact h id { cell with found } hcell'

/-- Whatever a thread honestly does leaves the store honest, and the thread is answered as it relies on. -/
theorem Store.Honest.perform (hs : s.Honest) (hagrees : s.Agrees types) (ha : a.Honest types) (me : Thread) :
    (a.perform me s).1.Honest ∧ ∀ r, (a.perform me s).2 = some r → a.Answered types r := by
  cases a with
  | note h => exact ⟨hs.note h ha, fun _ _ => trivial⟩
  | enter place => exact ⟨hs.enter me place, fun _ _ => trivial⟩
  | acquire place =>
      obtain ⟨hafter, hready⟩ := hs.acquire me place
      refine ⟨hafter, fun grant hgrant => ?_⟩
      cases grant with
      | ready v => exact hready v hgrant
      | _ => trivial
  | settle place v => exact ⟨hs.settle ha, fun _ _ => trivial⟩
  | release place => exact ⟨hs.release place, fun _ _ => trivial⟩
  | countRun place tag =>
      exact ⟨(hs.note (.began place) trivial).aside rfl rfl (Nat.le_refl _) rfl, fun _ _ => trivial⟩
  | nextIdentity | numberConfigs => exact ⟨hs.aside rfl rfl (Nat.le_succ _) rfl, fun _ _ => trivial⟩
  | postpone c k =>
      refine ⟨hs.postpone ha k, ?_⟩
      rintro _ ⟨⟩
      rfl
  | remember l =>
      obtain ⟨hafter, hfound⟩ := hs.remember hagrees l
      refine ⟨hafter, fun r hr => ?_⟩
      cases r with
      | none => trivial
      | some v => exact hfound v (Option.some.inj hr)
  | reclaim l =>
      obtain ⟨hafter, hcell⟩ := hs.reclaim hagrees l
      refine ⟨hafter, fun r hr => ?_⟩
      cases r with
      | none => trivial
      | some cell => exact hcell cell (Option.some.inj hr)
  | keep l v =>
      obtain ⟨hafter, hkept⟩ := hs.keep hagrees ha
      refine ⟨hafter, ?_⟩
      rintro _ ⟨⟩
      exact hkept
  | tell | leave | nextSerial | hold | letGo | arrive =>
      exact ⟨hs.aside rfl rfl (Nat.le_refl _) rfl, fun _ _ => trivial⟩
  | await | leadsUp => exact ⟨hs, fun _ _ => trivial⟩

end Turns

/-! ### Operations -/

/-- What can be done with containers, from outside or by a provider in the midst of its run. -/
inductive Operation
  | ask (handle : Handle) (request : Request)
  | use (l : Lazy)
  /-- Adds bindings to a new builder below some parents, one after the other, and builds a container. -/
  | build (label : String) (parents : List Container) (bindings : List Binding) (eager : Bool)

/-- What became of an operation. -/
inductive Upshot
  | asked (request : Request) (result : Except (Stop Failure) Resolved)
  | used (l : Lazy) (result : Except (Stop Failure) Value)
  | built (result : Except (Stop BuildError) Container)

/-- The ways to look keys up: from outside, and from within constructions to some depth. -/
inductive Lookup.Genuine : Lookup → Prop
  | outside : Genuine Container.require
  | within (depth : Nat) : Genuine (requireWithin depth)

theorem Lookup.Genuine.honest {require : Lookup} (h : require.Genuine) (types : Nat → TypeInfo) :
    require.Honest types := by
  cases h with
  | outside => exact honest_require types
  | within depth => exact honest_requireWithin types depth

namespace Operation

def process (require : Lookup) : Operation → Process (Option Upshot)
  | ask h r => (h.request require r).run.bind fun result => .done (some (.asked r result))
  | use l => (l.get require).run.bind fun result => .done (some (.used l result))
  | build label parents bindings eager =>
    let b := bindings.foldl Builder.add { Builder.new with label, parents }
    (b.buildThen require id eager pure).run.bind fun result => .done (some (.built result))

/-- Only containers that were built can be asked and be parents, only handles that were obtained can be used, and all
bindings are made of typed values and typed providers. -/
def Possible (s : Store) : Operation → Prop
  | ask h _ => s.HasBuilt h.container
  | use l => ∃ cell, s.cells l.id = some cell ∧ cell.key = l.key
  | build _ parents bindings _ => (∀ p ∈ parents, s.HasBuilt p) ∧ ∀ b ∈ bindings, b.Customary Value.type

end Operation

/-- The operation gave a value of the type asked for, if it gave one, and no mismatch of types made it fail. -/
def Upshot.Fulfilled : Upshot → Prop
  | asked r result => Stop.Passes (·.isMismatch = false) r.Fulfilled result
  | used l result => Stop.Passes (·.isMismatch = false) (·.type = l.key.type) result
  | built result => Stop.Passes (·.isMismatch = false) (fun _ => True) result

/-- The process of a thread is honest, and the operation that it performs, if any, is fulfilled. -/
def Process.Sincere (types : Nat → TypeInfo) (p : Process (Option Upshot)) : Prop :=
  p.Honest types fun u => ∀ upshot ∈ u, upshot.Fulfilled

theorem sincere_operation {require : Lookup} (hrequire : require.Genuine) {s : Store} (hs : s.Honest)
    {types : Nat → TypeInfo} (hagrees : s.Agrees types) {op : Operation} (hop : op.Possible s) :
    (op.process require).Sincere types := by
  cases op with
  | ask h r =>
      have hasked := honest_request (hrequire.honest types) (hs.container hop) h.requester r
      refine Process.Honest.bind hasked fun result hresult => ?_
      rintro _ ⟨⟩
      exact hresult
  | use l =>
      obtain ⟨cell, hcell, hkey⟩ := hop
      have hl : types l.id = l.key.type := (hagrees l.id cell hcell).symm.trans (congrArg Key.type hkey)
      have hused := (honest_get (hrequire.honest types) l).weaken fun v hv => hv.trans hl
      refine Process.Honest.bind hused fun result hresult => ?_
      rintro _ ⟨⟩
      exact hresult
  | build label parents bindings eager =>
      have hnew : Builder.Honest { Builder.new with label, parents } :=
        ⟨fun _ h => (List.not_mem_nil h).elim, fun p hp => hs.container (hop.1 p hp)⟩
      have hb := hnew.foldl_add bindings fun b hb => (hop.2 b hb).honest
      have hbuilt : Attempt.Honest types (·.isMismatch = false) (fun _ => True)
          (Builder.buildThen require id _ eager pure) :=
        honest_buildThen (hrequire.honest types) (fun _ he => he) hb eager fun c _ => .pure trivial
      refine Process.Honest.bind hbuilt fun result hresult => ?_
      rintro _ ⟨⟩
      exact hresult

/-! ### Teams -/

/-- The states that threads can come to which perform possible operations. -/
inductive Reached : Team (Option Upshot) → Prop
  | start : Reached ⟨.empty, fun _ => .done none⟩
  /-- A thread begins an operation, also in the midst of another one; then it is followed to the end of the new one. -/
  | begin {team : Team (Option Upshot)} (h : Reached team) (me : Thread) {op : Operation} (hop : op.Possible team.store)
      {require : Lookup} (hrequire : require.Genuine) :
      Reached ⟨team.store, setAt team.threads me (op.process require)⟩
  | turn {team : Team (Option Upshot)} (h : Reached team) (me : Thread) : Reached (team.turn me)
  /-- Whatever else happens, such as that a container is dropped, leaves places, handles and the history alone. -/
  | aside {team : Team (Option Upshot)} (h : Reached team) {store : Store} (slots : store.slots = team.store.slots)
      (cells : store.cells = team.store.cells) (history : store.history = team.store.history)
      (identities : team.store.identities ≤ store.identities) : Reached ⟨store, team.threads⟩

/-- The store is honest, and each thread will be as long as it is answered as it relies on. -/
structure Team.Honest (team : Team (Option Upshot)) : Prop where
  store : team.store.Honest
  threads : ∀ types, team.store.Agrees types → ∀ t, (team.threads t).Sincere types

theorem forall_setAt {α β : Type} [DecidableEq α] {f : α → β} {a : α} {b : β} {P : β → Prop} (hb : P b)
    (hf : ∀ x, P (f x)) (x : α) : P (setAt f a b x) := by
  unfold setAt
  split
  · exact hb
  · exact hf x

theorem Team.Honest.turn {team : Team (Option Upshot)} (h : team.Honest) (me : Thread) : (team.turn me).Honest := by
  rcases hme : team.threads me with u | ⟨a, next⟩
  · have hturn : team.turn me = team := by simp only [Team.turn, hme]
    rwa [hturn]
  have hact (types) (hagrees : team.store.Agrees types) : (Process.act a next).Sincere types :=
    hme ▸ h.threads types hagrees me
  have hafter : (a.perform me team.store).1.Honest := by
    obtain ⟨types, hagrees⟩ := team.store.exists_agrees
    exact (h.store.perform hagrees (hact types hagrees).1 me).1
  -- handles last, so what they are for after the turn was true of them before it
  have hbefore (types) (hagrees : (a.perform me team.store).1.Agrees types) : team.store.Agrees types :=
    .of_perform h.store hagrees
  rcases hperform : a.perform me team.store with ⟨store, _ | r⟩ <;> rw [hperform] at hafter hbefore
  · rw [Team.turn_waits hme hperform]
    exact ⟨hafter, fun types hagrees => h.threads types (hbefore types hagrees)⟩
  · rw [Team.turn_goes hme hperform]
    refine ⟨hafter, fun types hagrees => forall_setAt ?_ (h.threads types (hbefore types hagrees))⟩
    obtain ⟨ha, hnext⟩ := hact types (hbefore types hagrees)
    exact hnext r ((h.store.perform (hbefore types hagrees) ha me).2 r (by rw [hperform]))

theorem Reached.honest {team : Team (Option Upshot)} (h : Reached team) : team.Honest := by
  induction h with
  | start => exact ⟨Store.honest_empty, fun _ _ _ => by simp [Process.Sincere, Process.Honest]⟩
  | begin h me hop hrequire ih =>
      exact ⟨ih.store, fun types hagrees =>
        forall_setAt (sincere_operation hrequire ih.store hagrees hop) (ih.threads types hagrees)⟩
  | turn h me ih => exact ih.turn me
  | aside h slots cells history identities ih =>
      exact ⟨ih.store.aside slots cells identities history, fun types hagrees =>
        ih.threads types fun id cell hcell => hagrees id cell (cells ▸ hcell)⟩

theorem Reached.after {team : Team (Option Upshot)} (h : Reached team) (turns : List Thread) :
    Reached (team.after turns) := by
  induction turns generalizing team with
  | nil => exact h
  | cons me turns ih => exact ih (h.turn me)

/-- Values in places, in handles and in answers have the types of their keys, and no operation fails because a value is
of another type than was asked for, wherever in the trail of the failure. -/
theorem typed_of_reached {team : Team (Option Upshot)} (h : Reached team) :
    (∀ p v, team.store.slots.slot p = .ready v → v.type = p.key.type) ∧
      (∀ id cell v, team.store.cells id = some cell → cell.found = some v → v.type = cell.key.type) ∧
      (∀ c k v, .answered c k v ∈ team.store.history → v.type = k.type) ∧
      ∀ t upshot, team.threads t = .done (some upshot) → upshot.Fulfilled := by
  obtain ⟨hstore, hthreads⟩ := h.honest
  obtain ⟨types, hagrees⟩ := team.store.exists_agrees
  refine ⟨hstore.ready, fun id cell v hcell => (hstore.cells id cell hcell).2.2 v, fun _ _ _ => hstore.history _, ?_⟩
  intro t upshot ht
  have hsincere := hthreads types hagrees t
  rw [ht] at hsincere
  exact hsincere upshot rfl

namespace Twins

def elder : TypeInfo := ⟨1, "Twin", .number⟩

/-- Another type of the same name. -/
def younger : TypeInfo := ⟨2, "Twin", .number⟩

/-- The elder twin is kept, and wants to know the younger one. -/
def elderBinding : Binding :=
  (BindingOf.provider ⟨elder, "", [.ask (.resolve (.value (.ofType younger))) none false], none⟩).keeping

def youngerBinding : Binding := .provider ⟨younger, "", [], none⟩

def home : Container :=
  let registry : Registry := ⟨[elderBinding, youngerBinding]⟩
  ⟨0, "twins", registry, [], Graph.assemble registry []⟩

def building : Operation := .build "twins" [] [elderBinding, youngerBinding] false

def asking : Operation := .ask ⟨home, none⟩ (.resolve (.value (.ofType elder)))

/-- One thread builds the container. -/
def built : Team (Option Upshot) :=
  Team.after ⟨.empty, setAt (fun _ => .done none) 0 (building.process Container.require)⟩ (List.replicate 6 0)

/-- Another thread asks for the elder twin. -/
def asked : Team (Option Upshot) :=
  Team.after ⟨built.store, setAt built.threads 1 (asking.process Container.require)⟩ (List.replicate 17 1)

theorem possible_building : building.Possible .empty := by
  have helder : elderBinding.Customary Value.type := .keeping (.provider _ (by simp) (by simp))
  have hyounger : youngerBinding.Customary Value.type := .provider _ (by simp) (by simp)
  exact ⟨nofun, List.forall_mem_cons.2 ⟨helder, List.forall_mem_singleton.2 hyounger⟩⟩

theorem reached_built : Reached built := .after (.begin .start 0 possible_building .outside) _

theorem reached_asked : Reached asked := by
  have hhome : asking.Possible built.store := List.mem_of_getElem? (rfl : built.store.history[0]? = some (.built home))
  exact .after (.begin reached_built 1 hhome .outside) _

/-- The elder twin, who has seen the younger one. -/
def grown : Value := .made elder 2 (.provided "" (.ofType elder) "twins" [.value (.made 1 younger)] [])

def upshot : Upshot := .asked (.resolve (.value (.ofType elder))) (.ok (.value grown))

end Twins

open Twins in
/-- The elder twin is kept and handed out as what it is, though the younger one goes by the same name. -/
theorem typed_twins : elder.name = younger.name ∧ elder ≠ younger ∧ Reached asked ∧
    (asked.store.slots.slot ⟨0, .ofType elder⟩ = .ready grown ∧ grown.type = elder) ∧
    asked.threads 1 = .done (some upshot) ∧ upshot.Fulfilled := by
  obtain ⟨hready, -, -, hfulfilled⟩ := typed_of_reached reached_asked
  have hkept : asked.store.slots.slot ⟨0, .ofType elder⟩ = .ready grown := rfl
  have hdone : asked.threads 1 = .done (some upshot) := rfl
  exact ⟨rfl, by decide, reached_asked, ⟨hkept, hready _ _ hkept⟩, hdone, hfulfilled 1 _ hdone⟩

end Injection
