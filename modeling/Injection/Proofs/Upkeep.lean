import Injection.Proofs.Construction
import Injection.Proofs.Openings

/-!
What single actions of a careful thread do for the store of several threads. What is there for good stays, as long as the
places keep what is ready in them; the store stays coherent, as long as new containers have new numbers; and the store
shows, and holds, just what the thread is in the midst of, with what others are in the midst of left as it was.
-/

namespace Injection

/-! ### What actions can do -/

namespace Store

variable (s : Store) (me : Thread) (l : Lazy)

theorem remember_cases : (s.remember l).1 = s ∨ ∃ c k v, (s.remember l).1 = s.note (.used c k v) := by
  unfold remember
  split
  · exact .inl rfl
  · next cell _ =>
    split
    · next v _ => exact .inr ⟨cell.container, cell.key, v, rfl⟩
    · exact .inl rfl

theorem reclaim_cases : s.reclaim l = (s, none) ∨
    ∃ cell, s.cells l.id = some cell ∧ s.isAlive cell.container.id = true ∧
      s.reclaim l = (s.hold cell.container, some cell) := by
  unfold reclaim
  split
  · exact .inl rfl
  · next cell hcell =>
    split
    · next halive => exact .inr ⟨cell, hcell, halive, rfl⟩
    · exact .inl rfl

theorem keep_cases (v : Value) : (s.cells l.id = none ∧ (s.keep l v).1 = s) ∨
    ∃ cell, s.cells l.id = some cell ∧ (s.keep l v).1 =
      { s.note (.used cell.container cell.key (cell.found.getD v)) with
        cells := setAt s.cells l.id (some { cell with found := some (cell.found.getD v) }) } := by
  unfold keep
  split
  · next hcell => exact .inl ⟨hcell, rfl⟩
  · next cell hcell => exact .inr ⟨cell, hcell, rfl⟩

theorem enter_cases (place : Address) : s.enter me place = (s.note (.refused place), false) ∨
    s.enter me place =
      ({ s.note (.entered place) with building := setAt s.building me (s.building me ++ [place]) }, true) := by
  unfold enter
  split
  · exact .inl rfl
  · exact .inr rfl

end Store

/-- Nothing is built and nothing answered. -/
def Happening.isAside : Happening → Bool
  | built _ => false
  | answered _ _ _ => false
  | _ => true

namespace Action

/-- Goes into a construction or comes out of one. -/
def isPassage : Action → Bool
  | enter _ => true
  | leave _ => true
  | _ => false

/-- Changes what a lazy handle has found, or makes one. -/
def isHandling : Action → Bool
  | postpone _ _ => true
  | keep _ _ => true
  | _ => false

/-- Takes hold of a container or lets go of one. -/
def isGrip : Action → Bool
  | reclaim _ => true
  | hold _ => true
  | letGo _ => true
  | _ => false

/-- Gives out a number. -/
def isNumbering : Action → Bool
  | nextIdentity => true
  | numberConfigs => true
  | postpone _ _ => true
  | _ => false

/-- What an action does not change. -/
structure Leaves (a : Action) (s t : Store) : Prop where
  building : a.isPassage = false → t.building = s.building
  cells : a.isHandling = false → t.cells = s.cells
  held : a.isGrip = false → t.held = s.held
  identities : a.isNumbering = false → t.identities = s.identities

variable {a : Action} {me : Thread} {s t : Store} {os : List Opening}

theorem leaves_perform : a.Leaves s (a.perform me s).1 := by
  have hall {t : Store} (hbuilding : t.building = s.building) (hcells : t.cells = s.cells) (hheld : t.held = s.held)
      (hidentities : t.identities = s.identities) : a.Leaves s t :=
    ⟨fun _ => hbuilding, fun _ => hcells, fun _ => hheld, fun _ => hidentities⟩
  cases a with
  | enter place =>
      refine ⟨by simp [isPassage], ?_, ?_, ?_⟩ <;> intro _ <;>
        rcases s.enter_cases me place with h | h <;> simp [perform, h, Store.note]
  | leave place => exact ⟨by simp [isPassage], fun _ => rfl, fun _ => rfl, fun _ => rfl⟩
  | nextIdentity | numberConfigs => exact ⟨fun _ => rfl, fun _ => rfl, fun _ => rfl, by simp [isNumbering]⟩
  | postpone c k => exact ⟨fun _ => rfl, by simp [isHandling], fun _ => rfl, by simp [isNumbering]⟩
  | remember l =>
      show Leaves _ s (s.remember l).1
      rcases s.remember_cases l with h | ⟨c, k, v, h⟩ <;> rw [h] <;> exact hall rfl rfl rfl rfl
  | reclaim l =>
      show Leaves _ s (s.reclaim l).1
      rcases s.reclaim_cases l with h | ⟨cell, -, -, h⟩ <;> rw [h]
      · exact hall rfl rfl rfl rfl
      · exact ⟨fun _ => rfl, fun _ => rfl, by simp [isGrip], fun _ => rfl⟩
  | keep l v =>
      show Leaves _ s (s.keep l v).1
      rcases s.keep_cases l v with ⟨-, h⟩ | ⟨cell, -, h⟩ <;> rw [h]
      · exact hall rfl rfl rfl rfl
      · exact ⟨fun _ => rfl, by simp [isHandling], fun _ => rfl, fun _ => rfl⟩
  | hold c => exact ⟨fun _ => rfl, fun _ => rfl, by simp [isGrip], fun _ => rfl⟩
  | letGo c => exact ⟨fun _ => rfl, fun _ => rfl, by simp [isGrip], fun _ => rfl⟩
  | _ => exact hall rfl rfl rfl rfl

/-- What an action adds to the history. -/
theorem history_perform : (a.perform me s).1.history = s.history ∨
    ∃ h, (a.perform me s).1.history = h :: s.history ∧ (a = .note h ∨ h.isAside = true) := by
  cases a with
  | note h => exact .inr ⟨h, rfl, .inl rfl⟩
  | countRun place tag => exact .inr ⟨_, rfl, .inr rfl⟩
  | enter place =>
      show (s.enter me place).1.history = _ ∨ _
      rcases s.enter_cases me place with h | h
      · exact .inr ⟨.refused place, congrArg (·.1.history) h, .inr rfl⟩
      · exact .inr ⟨.entered place, congrArg (·.1.history) h, .inr rfl⟩
  | remember l =>
      rcases s.remember_cases l with h | ⟨c, k, v, h⟩
      · exact .inl (congrArg Store.history h)
      · exact .inr ⟨.used c k v, congrArg Store.history h, .inr rfl⟩
  | reclaim l =>
      rcases s.reclaim_cases l with h | ⟨cell, -, -, h⟩
      · exact .inl (congrArg (·.1.history) h)
      · exact .inl (congrArg (·.1.history) h)
  | keep l v =>
      rcases s.keep_cases l v with ⟨-, h⟩ | ⟨cell, -, h⟩
      · exact .inl (congrArg Store.history h)
      · exact .inr ⟨.used cell.container cell.key (cell.found.getD v), congrArg Store.history h, .inr rfl⟩
  | _ => exact .inl rfl

/-- A thread that has to wait changes nothing but who waits for which place. -/
theorem perform_eq_none (h : a.perform me s = (t, none)) : ∃ slots, t = { s with slots } := by
  cases a with
  | acquire place => exact ⟨(s.slots.acquire me place).1, (congrArg Prod.fst h).symm⟩
  | await gate count => exact ⟨s.slots, (congrArg Prod.fst h).symm⟩
  | _ => cases congrArg Prod.snd h

theorem building_perform_of_ne {other : Thread} (hother : other ≠ me) :
    (a.perform me s).1.building other = s.building other := by
  cases a with
  | enter place =>
      rcases s.enter_cases me place with h | h
      · exact congrArg (·.1.building other) h
      · exact (congrArg (·.1.building other) h).trans (setAt_of_ne _ _ hother)
  | leave place => exact setAt_of_ne _ _ hother
  | _ => exact congrFun (leaves_perform.building rfl) other

/-! ### What is there for good -/

/-- Handles stay what they are handles for, and keep what they have found. -/
theorem cells_perform {id : Nat} {cell : Cell} (hid : id < s.identities) (hcell : s.cells id = some cell) :
    ∃ found, (a.perform me s).1.cells id = some { cell with found } ∧ ∀ v, cell.found = some v → found = some v := by
  have hstays {s' : Store} (h : s'.cells id = s.cells id) :
      ∃ found, s'.cells id = some { cell with found } ∧ ∀ v, cell.found = some v → found = some v :=
    ⟨cell.found, by rw [h, hcell], fun _ hv => hv⟩
  cases a with
  | postpone c k => exact hstays (setAt_of_ne _ _ (Nat.ne_of_lt hid))
  | keep l v =>
      show ∃ found, (s.keep l v).1.cells id = _ ∧ _
      rcases s.keep_cases l v with ⟨-, h⟩ | ⟨own, hown, h⟩ <;> rw [h]
      · exact hstays rfl
      · by_cases heq : id = l.id
        · subst heq
          obtain rfl := Option.some.inj (hown.symm.trans hcell)
          exact ⟨_, setAt_self .., fun w hw => by simp [hw]⟩
        · exact hstays (setAt_of_ne _ _ heq)
  | _ => exact hstays (congrFun (leaves_perform.cells rfl) id)

theorem identities_le_perform : s.identities ≤ (a.perform me s).1.identities := by
  cases a with
  | nextIdentity | numberConfigs => exact Nat.le_succ _
  | postpone c k => exact Nat.le_succ _
  | _ => exact Nat.le_of_eq (leaves_perform.identities rfl).symm

theorem lasts_perform (hs : s.Coherent)
    (hready : ∀ p v, s.slots.slot p = .ready v → (a.perform me s).1.slots.slot p = .ready v) :
    s.Lasts (a.perform me s).1 := by
  refine ⟨?_, identities_le_perform, hready, fun id cell hcell => cells_perform (hs.cells id cell hcell).1 hcell⟩
  rcases @history_perform a me s with h | ⟨_, h, -⟩
  · exact h.symm ▸ List.suffix_refl _
  · exact h.symm ▸ List.suffix_cons _ _

end Action

/-! ### Coherence -/

namespace Store.Coherent

variable {s t : Store}

/-- What happens aside from the building of containers and the answers to requests. -/
theorem evolve (hs : s.Coherent) (hst : s.Lasts t) (hbuilt : ∀ c, t.HasBuilt c → s.HasBuilt c)
    (hanswered : ∀ c k v, .answered c k v ∈ t.history → .answered c k v ∈ s.history ∨
      ∀ o b, c.owner? k = some (o, b) → t.Standing o b v)
    (hcells : ∀ id cell, t.cells id = some cell → s.cells id = some cell ∨ id < t.identities ∧
      t.HasBuilt cell.container ∧ ∀ v, cell.found = some v → .answered cell.container cell.key v ∈ t.history) :
    t.Coherent where
  numbered c hc := Nat.lt_of_lt_of_le (hs.numbered c (hbuilt c hc)) hst.identities
  unique c d hc hd := hs.unique c d (hbuilt c hc) (hbuilt d hd)
  parents c p hc hp := (hs.parents c p (hbuilt c hc) hp).imp_left hst.hasBuilt
  cells id cell hcell := by
    rcases hcells id cell hcell with hcell | hnew
    · obtain ⟨hid, hc, hfound⟩ := hs.cells id cell hcell
      exact ⟨Nat.lt_of_lt_of_le hid hst.identities, hst.hasBuilt hc, fun v hv => hst.mem (hfound v hv)⟩
    · exact hnew
  answers c k v hv o b howner := by
    rcases hanswered c k v hv with hv | hnew
    · exact hst.standing (hs.answers c k v hv o b howner)
    · exact hnew o b howner
  linked c hc := hs.linked c (hbuilt c hc)

/-- Nothing is built, answered or found. -/
theorem aside (hs : s.Coherent) (hst : s.Lasts t) (hcells : t.cells = s.cells)
    (hhistory : ∀ h ∈ t.history, h ∈ s.history ∨ (∀ c, h ≠ .built c) ∧ ∀ c k v, h ≠ .answered c k v) : t.Coherent := by
  refine hs.evolve hst (fun c hc => ?_) (fun c k v hv => .inl ?_) fun id cell hcell => .inl (hcells ▸ hcell)
  · exact (hhistory _ hc).resolve_right fun h => h.1 c rfl
  · exact (hhistory _ hv).resolve_right fun h => h.2 c k v rfl

theorem note_built {c : Container} (hs : s.Coherent) (hst : s.Lasts (s.note (.built c))) (hid : c.id < s.identities)
    (hnew : ∀ d, s.HasBuilt d → d.id ≠ c.id) (hparents : ∀ p ∈ c.parents, s.HasBuilt p ∧ p.id < c.id)
    (hlinked : c.Linked) : (s.note (.built c)).Coherent where
  numbered d hd := by
    rcases List.mem_cons.1 hd with hd | hd
    · obtain rfl := Happening.built.inj hd
      exact hid
    · exact hs.numbered d hd
  unique d e hd he heq := by
    rcases List.mem_cons.1 hd with hd | hd <;> rcases List.mem_cons.1 he with he | he
    · exact (Happening.built.inj hd).trans (Happening.built.inj he).symm
    · cases hd
      exact absurd heq.symm (hnew e he)
    · cases he
      exact absurd heq (hnew d hd)
    · exact hs.unique d e hd he heq
  parents d p hd hp := by
    rcases List.mem_cons.1 hd with hd | hd
    · obtain rfl := Happening.built.inj hd
      exact (hparents p hp).imp_left hst.hasBuilt
    · exact (hs.parents d p hd hp).imp_left hst.hasBuilt
  cells id cell hcell := by
    obtain ⟨hlt, hc, hfound⟩ := hs.cells id cell hcell
    exact ⟨hlt, hst.hasBuilt hc, fun v hv => hst.mem (hfound v hv)⟩
  answers d k v hv o b howner := hst.standing (hs.answers d k v ((List.mem_cons.1 hv).resolve_left nofun) o b howner)
  linked d hd := by
    rcases List.mem_cons.1 hd with hd | hd
    · exact Happening.built.inj hd ▸ hlinked
    · exact hs.linked d hd

end Store.Coherent

namespace Action

variable {a : Action} {me : Thread} {s t : Store} {os : List Opening}

/-- Unless an action notes it itself, nothing is built and nothing answered. -/
theorem mem_history_perform {h : Happening} (ha : a ≠ .note h) (haside : h.isAside = false)
    (hh : h ∈ (a.perform me s).1.history) : h ∈ s.history := by
  rcases @history_perform a me s with hhistory | ⟨h', hhistory, hnote⟩ <;> rw [hhistory] at hh
  · exact hh
  · rcases List.mem_cons.1 hh with rfl | hh
    · rcases hnote with hnote | hnote
      · exact absurd hnote ha
      · exact nomatch hnote.symm.trans haside
    · exact hh

theorem coherent_perform (hs : s.Coherent) (hst : s.Lasts (a.perform me s).1) (ha : a.Fair s os)
    (hnew : ∀ c, a = .note (.built c) → c.id < s.identities ∧ ∀ d, s.HasBuilt d → d.id ≠ c.id) :
    (a.perform me s).1.Coherent := by
  by_cases hbuilding : ∃ c, a = .note (.built c)
  · obtain ⟨c, rfl⟩ := hbuilding
    exact hs.note_built hst (hnew c rfl).1 (hnew c rfl).2 ha.2.1 ha.2.2
  refine hs.evolve hst (fun c hc => mem_history_perform (fun h => hbuilding ⟨c, h⟩) rfl hc) ?_ ?_
  · intro c k v hv
    by_cases hanswer : a = .note (.answered c k v)
    · subst hanswer
      exact .inr fun o b howner => hst.standing (ha o b howner)
    · exact .inl (mem_history_perform hanswer rfl hv)
  · intro id cell hcell
    cases a with
    | postpone c k =>
        by_cases hid : id = s.identities
        · subst hid
          obtain rfl := Option.some.inj ((setAt_self ..).symm.trans hcell)
          exact .inr ⟨Nat.lt_succ_self _, hst.hasBuilt ha, nofun⟩
        · exact .inl ((setAt_of_ne _ _ hid).symm.trans hcell)
    | keep l v =>
        rcases s.keep_cases l v with ⟨-, h⟩ | ⟨own, hown, h⟩
        · exact .inl ((congrArg (·.cells id) h).symm.trans hcell)
        have hcells : setAt s.cells l.id _ id = some cell := (congrArg (·.cells id) h).symm.trans hcell
        by_cases hid : id = l.id
        · subst hid
          obtain rfl := Option.some.inj ((setAt_self ..).symm.trans hcells)
          obtain ⟨hlt, hc, hfound⟩ := hs.cells _ own hown
          refine .inr ⟨Nat.lt_of_lt_of_le hlt hst.identities, hst.hasBuilt hc, ?_⟩
          rintro _ ⟨⟩
          cases hold : own.found with
          | none => exact hst.mem (ha own hown).1
          | some w => exact hst.mem (hfound w hold)
        · exact .inl ((setAt_of_ne _ _ hid).symm.trans hcells)
    | _ => exact .inl ((congrFun (leaves_perform.cells rfl) id).symm.trans hcell)

/-! ### What a thread is in the midst of -/

theorem shows_perform {r : a.Reply} (hshows : s.Shows me os) (ha : a.Fair s os)
    (hperform : a.perform me s = (t, some r)) : t.Shows me (a.openings r os) := by
  obtain rfl : (a.perform me s).1 = t := congrArg Prod.fst hperform
  have hsame (hpassage : a.isPassage = false)
      (hos : (a.openings r os).filterMap Opening.place? = os.filterMap Opening.place?) :
      (a.perform me s).1.Shows me (a.openings r os) := by
    rw [Store.Shows, leaves_perform.building hpassage, hos]
    exact hshows
  cases a with
  | enter place =>
      have hreply : some (s.enter me place).2 = some r := congrArg Prod.snd hperform
      show (s.enter me place).1.Shows me _
      rcases s.enter_cases me place with h | h <;> rw [h] at hreply ⊢ <;> cases hreply
      · exact hshows
      · show setAt s.building me _ me = _
        rw [setAt_self, hshows]
        exact (List.reverse_cons ..).symm
  | leave place =>
      obtain ⟨rest, rfl⟩ := List.head?_eq_some_iff.1 ha
      show setAt s.building me _ me = _
      rw [setAt_self, hshows]
      show Store.eraseLast (place :: rest.filterMap Opening.place?).reverse place = _
      rw [List.reverse_cons, Store.eraseLast_append]
      rfl
  | note h =>
      cases h with
      | built c =>
          obtain ⟨rest, rfl⟩ := List.head?_eq_some_iff.1 ha.1
          exact hsame rfl rfl
      | _ => exact hsame rfl rfl
  | letGo c =>
      obtain ⟨rest, rfl⟩ := List.head?_eq_some_iff.1 ha
      exact hsame rfl rfl
  | reclaim l => cases r <;> exact hsame rfl rfl
  | _ => exact hsame rfl rfl

end Action

/-- The numbers of the containers that are kept from being dropped. -/
def Opening.holdings (os : List Opening) : List Nat := (os.filterMap container?).map (·.id)

/-- The numbers of containers that are not built yet. -/
def Opening.numbers (os : List Opening) : List Nat := os.filterMap number?

/-- What is under construction belongs to containers that are kept from being dropped until the construction is over. -/
def Opening.Supported : List Opening → Prop
  | [] => True
  | within p :: os => (∃ c o, holding c ∈ os ∧ c.Reaches o ∧ o.id = p.container) ∧ Supported os
  | _ :: os => Supported os

theorem Opening.Supported.exists_holding {os : List Opening} (h : Supported os) {place : Address}
    (hplace : .within place ∈ os) : ∃ c o, holding c ∈ os ∧ c.Reaches o ∧ o.id = place.container := by
  induction os with
  | nil => cases hplace
  | cons o os ih =>
      rcases List.mem_cons.1 hplace with rfl | hplace
      · obtain ⟨c, o, hc, hreaches, hid⟩ := h.1
        exact ⟨c, o, List.mem_cons_of_mem _ hc, hreaches, hid⟩
      · have hrest : Supported os := by
          cases o with
          | within q => exact h.2
          | holding d => exact h
          | numbering id => exact h
        obtain ⟨c, o', hc, hreaches, hid⟩ := ih hrest hplace
        exact ⟨c, o', List.mem_cons_of_mem _ hc, hreaches, hid⟩

/-- No two of some numbers are the same, and they are given out but not used yet. -/
structure Store.Unused (s : Store) (ids : List Nat) : Prop where
  nodup : ids.Nodup
  given : ∀ id ∈ ids, id < s.identities
  unused : ∀ id ∈ ids, ∀ c, s.HasBuilt c → c.id ≠ id

theorem Store.ids_letGo (s : Store) (c : Container) :
    (s.letGo c).held.map (·.id) = (s.held.map (·.id)).erase c.id := by
  rw [List.erase_eq_eraseP', List.eraseP_map]
  rfl

namespace Action

open Opening

variable {a : Action} {me : Thread} {s t : Store} {os : List Opening} {r : a.Reply}

/-- The store holds what it held for others, and what the thread keeps now. -/
theorem held_perform {others : List Nat} (hheld : (s.held.map (·.id)).Perm (holdings os ++ others))
    (ha : a.Fair s os) (hperform : a.perform me s = (t, some r)) :
    (t.held.map (·.id)).Perm (holdings (a.openings r os) ++ others) := by
  obtain rfl : (a.perform me s).1 = t := congrArg Prod.fst hperform
  have hsame (hgrip : a.isGrip = false) (hos : holdings (a.openings r os) = holdings os) :
      ((a.perform me s).1.held.map (·.id)).Perm (holdings (a.openings r os) ++ others) := by
    rwa [leaves_perform.held hgrip, hos]
  cases a with
  | hold c => exact hheld.cons c.id
  | letGo c =>
      obtain ⟨rest, rfl⟩ := List.head?_eq_some_iff.1 ha
      show ((s.letGo c).held.map (·.id)).Perm _
      rw [Store.ids_letGo]
      have herase := hheld.erase c.id
      rwa [show holdings (.holding c :: rest) ++ others = c.id :: (holdings rest ++ others) from rfl,
        List.erase_cons_head] at herase
  | reclaim l =>
      have hreply : some (s.reclaim l).2 = some r := congrArg Prod.snd hperform
      show ((s.reclaim l).1.held.map (·.id)).Perm _
      rcases s.reclaim_cases l with h | ⟨cell, -, -, h⟩ <;> rw [h] at hreply ⊢ <;> cases hreply
      · exact hheld
      · exact hheld.cons cell.container.id
  | enter place => cases r <;> exact hsame rfl rfl
  | leave place =>
      obtain ⟨rest, rfl⟩ := List.head?_eq_some_iff.1 ha
      exact hsame rfl rfl
  | note h =>
      cases h with
      | built c =>
          obtain ⟨rest, rfl⟩ := List.head?_eq_some_iff.1 ha.1
          exact hsame rfl rfl
      | _ => exact hsame rfl rfl
  | _ => exact hsame rfl rfl

/-- A thread takes hold only of containers that were built. -/
theorem hasBuilt_of_held_perform (hs : s.Coherent) (ha : a.Fair s os) {c : Container}
    (hc : c ∈ (a.perform me s).1.held) : c ∈ s.held ∨ s.HasBuilt c := by
  cases a with
  | hold d =>
      rcases List.mem_cons.1 hc with rfl | hc
      · exact .inr ha
      · exact .inl hc
  | letGo d => exact .inl (List.mem_of_mem_eraseP hc)
  | reclaim l =>
      obtain hc : c ∈ (s.reclaim l).1.held := hc
      rcases s.reclaim_cases l with h | ⟨cell, hcell, -, h⟩ <;> rw [h] at hc
      · exact .inl hc
      · rcases List.mem_cons.1 hc with rfl | hc
        · exact .inr (hs.cells _ cell hcell).2.1
        · exact .inl hc
  | _ =>
      rw [leaves_perform.held rfl] at hc
      exact .inl hc

theorem hasBuilt_of_holding (hs : s.Coherent) (ha : a.Fair s os) (hperform : a.perform me s = (t, some r))
    {c : Container} (hc : .holding c ∈ a.openings r os) : .holding c ∈ os ∨ s.HasBuilt c := by
  cases a with
  | hold d =>
      rcases List.mem_cons.1 hc with hc | hc
      · cases hc
        exact .inr ha
      · exact .inl hc
  | letGo d => exact .inl (List.mem_of_mem_tail hc)
  | leave place => exact .inl (List.mem_of_mem_tail hc)
  | nextIdentity => exact .inl ((List.mem_cons.1 hc).resolve_left nofun)
  | enter place =>
      cases r
      · exact .inl hc
      · exact .inl ((List.mem_cons.1 hc).resolve_left nofun)
  | reclaim l =>
      have hreply : some (s.reclaim l).2 = some r := congrArg Prod.snd hperform
      rcases s.reclaim_cases l with h | ⟨cell, hcell, -, h⟩ <;> rw [h] at hreply <;> cases hreply
      · exact .inl hc
      · rcases List.mem_cons.1 hc with hc | hc
        · cases hc
          exact .inr (hs.cells _ cell hcell).2.1
        · exact .inl hc
  | note h =>
      cases h with
      | built d => exact .inl (List.mem_of_mem_tail hc)
      | _ => exact .inl hc
  | _ => exact .inl hc

theorem supported_perform (hos : Supported os) (ha : a.Fair s os) : Supported (a.openings r os) := by
  cases a with
  | enter place =>
      cases r
      · exact hos
      · obtain ⟨c, o, b, hc, hreaches, hid, -⟩ := ha
        exact ⟨⟨c, o, hc, hreaches, hid⟩, hos⟩
  | leave place =>
      obtain ⟨rest, rfl⟩ := List.head?_eq_some_iff.1 ha
      exact hos.2
  | letGo c =>
      obtain ⟨rest, rfl⟩ := List.head?_eq_some_iff.1 ha
      exact hos
  | reclaim l => cases r <;> exact hos
  | note h =>
      cases h with
      | built c =>
          obtain ⟨rest, rfl⟩ := List.head?_eq_some_iff.1 ha.1
          exact hos
      | _ => exact hos
  | _ => exact hos

/-- A thread uses a number up when it builds the container that the number is for. -/
theorem unused_perform {others : List Nat} (hs : s.Coherent) (hunused : s.Unused (numbers os ++ others))
    (ha : a.Fair s os) (hperform : a.perform me s = (t, some r)) :
    t.Unused (numbers (a.openings r os) ++ others) := by
  obtain rfl : (a.perform me s).1 = t := congrArg Prod.fst hperform
  have hsame (hbuilding : ∀ c, a ≠ .note (.built c)) (hos : numbers (a.openings r os) = numbers os) :
      (a.perform me s).1.Unused (numbers (a.openings r os) ++ others) := by
    rw [hos]
    refine ⟨hunused.nodup, fun id hid => Nat.lt_of_lt_of_le (hunused.given id hid) identities_le_perform, ?_⟩
    exact fun id hid c hc => hunused.unused id hid c (mem_history_perform (hbuilding c) rfl hc)
  cases a with
  | nextIdentity =>
      obtain rfl : s.identities = r := Option.some.inj (congrArg Prod.snd hperform)
      refine ⟨List.nodup_cons.2 ⟨fun hid => Nat.lt_irrefl _ (hunused.given _ hid), hunused.nodup⟩, ?_, ?_⟩
      · exact List.forall_mem_cons.2 ⟨Nat.lt_succ_self _, fun id hid => Nat.lt_succ_of_lt (hunused.given id hid)⟩
      · exact List.forall_mem_cons.2 ⟨fun c hc => Nat.ne_of_lt (hs.numbered c hc), hunused.unused⟩
  | note h =>
      cases h with
      | built c =>
          obtain ⟨rest, rfl⟩ := List.head?_eq_some_iff.1 ha.1
          obtain ⟨hnot, hnodup⟩ := List.nodup_cons.1 hunused.nodup
          refine ⟨hnodup, fun id hid => hunused.given id (List.mem_cons_of_mem _ hid), fun id hid d hd => ?_⟩
          rcases List.mem_cons.1 hd with hd | hd
          · cases hd
            exact fun heq => hnot (heq ▸ hid)
          · exact hunused.unused id (List.mem_cons_of_mem _ hid) d hd
      | _ => exact hsame nofun rfl
  | enter place => cases r <;> exact hsame nofun rfl
  | leave place =>
      obtain ⟨rest, rfl⟩ := List.head?_eq_some_iff.1 ha
      exact hsame nofun rfl
  | letGo c =>
      obtain ⟨rest, rfl⟩ := List.head?_eq_some_iff.1 ha
      exact hsame nofun rfl
  | reclaim l => cases r <;> exact hsame nofun rfl
  | _ => exact hsame nofun rfl

end Action

end Injection
