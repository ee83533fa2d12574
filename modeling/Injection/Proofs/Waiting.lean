import Injection.Slots
import Mathlib.Data.List.Nodup
import Mathlib.Logic.Relation

/-!
Who waits for whom. While each thread has one wait edge at most, the search that is made before a new edge is put down
goes far enough to find every circle which that edge would close, and finds nothing else: a way to the caller need not
come through its first thread twice, and without the edge of that thread there is one edge less. While no thread waits
for itself either, not even through others, following the owners from any thread comes to an end at a thread that does
not wait.
-/

namespace Injection

namespace WaitEdge

/-- A thread waits for a place that the other one has. -/
def Waits (edges : List WaitEdge) (t u : Thread) : Prop := ∃ e ∈ edges, e.waiter = t ∧ e.owner = u

/-- Each thread waits for one place at most, and never for itself. -/
structure Orderly (edges : List WaitEdge) : Prop where
  single : (edges.map (·.waiter)).Nodup
  acyclic : ∀ t, ¬ Relation.TransGen (Waits edges) t t

variable {edges : List WaitEdge} {t u v : Thread}

theorem orderly_nil : Orderly [] where
  single := List.nodup_nil
  acyclic t h := by
    obtain ⟨_, -, e, he, -⟩ := Relation.TransGen.tail'_iff.1 h
    cases he

theorem Orderly.sublist {fewer : List WaitEdge} (h : Orderly edges) (hsub : fewer.Sublist edges) : Orderly fewer where
  single := (hsub.map _).nodup h.single
  acyclic t hcycle := h.acyclic t (hcycle.lift id fun _ _ ⟨e, he, hends⟩ => ⟨e, hsub.subset he, hends⟩)

theorem find?_of_mem (single : (edges.map (·.waiter)).Nodup) {e : WaitEdge} (he : e ∈ edges) (ht : e.waiter = t) :
    edges.find? (·.waiter = t) = some e := by
  have hsome : (edges.find? (·.waiter = t)).isSome := List.find?_isSome.2 ⟨e, he, by simpa using ht⟩
  obtain ⟨f, hf⟩ := Option.isSome_iff_exists.1 hsome
  have hfwaiter : f.waiter = t := by simpa using List.find?_some hf
  rw [hf, List.inj_on_of_nodup_map single (List.mem_of_find?_eq_some hf) he (hfwaiter.trans ht.symm)]

theorem stopWaiting_sublist (edges : List WaitEdge) (t : Thread) : (stopWaiting edges t).Sublist edges :=
  List.filter_sublist

theorem freeWaiters_sublist (edges : List WaitEdge) (place : Address) : (freeWaiters edges place).Sublist edges :=
  List.filter_sublist

theorem mem_stopWaiting {e : WaitEdge} : e ∈ stopWaiting edges t ↔ e ∈ edges ∧ e.waiter ≠ t := by
  simp [stopWaiting]

theorem mem_freeWaiters {e : WaitEdge} {place : Address} :
    e ∈ freeWaiters edges place ↔ e ∈ edges ∧ e.place ≠ place := by
  simp [freeWaiters]

theorem length_stopWaiting_lt {e : WaitEdge} (he : e ∈ edges) (ht : e.waiter = t) :
    (stopWaiting edges t).length < edges.length :=
  List.length_filter_lt_length_iff_exists.2 ⟨e, he, by simpa using ht⟩

theorem Orderly.waits_stopWaiting (h : Orderly edges) (hstep : Waits edges t u)
    (hpath : Relation.ReflTransGen (Waits edges) u v) :
    Relation.ReflTransGen (Waits (stopWaiting edges t)) u v ∧ v ≠ t := by
  have hne {w : Thread} (hpath : Relation.ReflTransGen (Waits edges) u w) : w ≠ t := by
    rintro rfl
    exact h.acyclic w (Relation.TransGen.head' hstep hpath)
  refine ⟨?_, hne hpath⟩
  induction hpath with
  | refl => exact .refl
  | tail hpath hlast ih =>
      obtain ⟨e, he, hw, ho⟩ := hlast
      exact ih.tail ⟨e, mem_stopWaiting.2 ⟨he, hw ▸ hne hpath⟩, hw, ho⟩

/-- A way need not come through its first thread again: it can be taken up from the last time it leaves that thread. -/
theorem path_without (hpath : Relation.ReflTransGen (Waits edges) u v) :
    v = u ∨ ∃ w, Waits edges u w ∧ Relation.ReflTransGen (Waits (stopWaiting edges u)) w v := by
  induction hpath with
  | refl => exact .inl rfl
  | @tail w x _ hlast ih =>
      by_cases hwu : w = u
      · exact .inr ⟨x, hwu ▸ hlast, .refl⟩
      · obtain ⟨y, hfirst, hrest⟩ := ih.resolve_left hwu
        obtain ⟨e, he, rfl, howner⟩ := hlast
        exact .inr ⟨y, hfirst, hrest.tail ⟨e, mem_stopWaiting.2 ⟨he, hwu⟩, rfl, howner⟩⟩

theorem leadsTo_mono {fewer : List WaitEdge} (single : (edges.map (·.waiter)).Nodup) (hsub : fewer.Sublist edges)
    (steps : Nat) (hleads : leadsTo fewer v steps u = true) : leadsTo edges v steps u = true := by
  induction steps generalizing u with
  | zero => cases hleads
  | succ steps ih =>
      unfold leadsTo at hleads ⊢
      split
      · rfl
      · next hne =>
        rw [if_neg hne] at hleads
        split at hleads
        · next e hfind =>
          have hwaiter : e.waiter = u := by simpa using List.find?_some hfind
          rw [find?_of_mem single (hsub.subset (List.mem_of_find?_eq_some hfind)) hwaiter]
          exact ih hleads
        · cases hleads

/-- What the search finds is a way along the edges. -/
theorem path_of_leadsTo {steps : Nat} (h : leadsTo edges v steps u = true) :
    Relation.ReflTransGen (Waits edges) u v := by
  induction steps generalizing u with
  | zero => cases h
  | succ steps ih =>
      unfold leadsTo at h
      split at h
      · next heq => exact heq ▸ .refl
      · split at h
        · next e hfind =>
          have hwaiter : e.waiter = u := by simpa using List.find?_some hfind
          exact (ih h).head ⟨e, List.mem_of_find?_eq_some hfind, hwaiter, rfl⟩
        · cases h

/-- The search finds every way to a thread if it may take one step more than there are edges. -/
theorem leadsTo_of_path (steps : Nat) (single : (edges.map (·.waiter)).Nodup)
    (hpath : Relation.ReflTransGen (Waits edges) u v) (hsteps : edges.length < steps) :
    leadsTo edges v steps u = true := by
  induction steps generalizing edges u with
  | zero => omega
  | succ steps ih =>
      unfold leadsTo
      split
      · rfl
      · next hne =>
        obtain ⟨w, ⟨e, he, hwaiter, howner⟩, hrest⟩ := (path_without hpath).resolve_left (Ne.symm hne)
        have hshort := length_stopWaiting_lt he hwaiter
        have hsub := stopWaiting_sublist edges u
        have hleads := ih ((hsub.map _).nodup single) hrest (by omega)
        rw [find?_of_mem single he hwaiter]
        show leadsTo edges v steps e.owner = true
        rw [howner]
        exact leadsTo_mono single hsub steps hleads

theorem leadsTo_iff {steps : Nat} (single : (edges.map (·.waiter)).Nodup) (hsteps : edges.length < steps) :
    leadsTo edges v steps u = true ↔ Relation.ReflTransGen (Waits edges) u v :=
  ⟨path_of_leadsTo, fun hpath => leadsTo_of_path steps single hpath hsteps⟩

/-- A way along one edge more goes along the old edges, or comes to the new one and goes on from its end. -/
theorem path_of_append {e : WaitEdge} (hpath : Relation.TransGen (Waits (edges ++ [e])) u v) :
    Relation.TransGen (Waits edges) u v ∨
      Relation.ReflTransGen (Waits edges) u e.waiter ∧ Relation.ReflTransGen (Waits edges) e.owner v := by
  have hstep {t u : Thread} (h : Waits (edges ++ [e]) t u) : Waits edges t u ∨ t = e.waiter ∧ u = e.owner := by
    obtain ⟨f, hf, hw, ho⟩ := h
    rcases List.mem_append.1 hf with hf | hf
    · exact Or.inl ⟨f, hf, hw, ho⟩
    · obtain rfl := List.mem_singleton.1 hf
      exact Or.inr ⟨hw.symm, ho.symm⟩
  induction hpath with
  | single hlast =>
      rcases hstep hlast with hold | ⟨rfl, rfl⟩
      · exact Or.inl (.single hold)
      · exact Or.inr ⟨.refl, .refl⟩
  | tail _ hlast ih =>
      rcases hstep hlast with hold | ⟨rfl, rfl⟩
      · exact ih.imp (·.tail hold) (And.imp_right (·.tail hold))
      · rcases ih with hpath | ⟨hpath, -⟩
        · exact Or.inr ⟨hpath.to_reflTransGen, .refl⟩
        · exact Or.inr ⟨hpath, .refl⟩

theorem startWaiting_eq_none {place : Address} (h : startWaiting edges t place u = none) :
    Relation.ReflTransGen (Waits edges) u t := by
  unfold startWaiting at h
  split at h
  · next hleads => exact path_of_leadsTo hleads
  · cases h

theorem eq_append_of_startWaiting {place : Address} {more : List WaitEdge}
    (h : startWaiting edges t place u = some more) :
    more = edges ++ [⟨t, place, u⟩] ∧ leadsTo edges t (edges.length + 1) u = false := by
  unfold startWaiting at h
  split at h
  · cases h
  · next hleads => exact ⟨(Option.some.inj h).symm, Bool.eq_false_iff.2 hleads⟩

theorem startWaiting_eq_none_iff (single : (edges.map (·.waiter)).Nodup) {place : Address} :
    startWaiting edges t place u = none ↔ Relation.ReflTransGen (Waits edges) u t := by
  refine ⟨startWaiting_eq_none, fun hpath => ?_⟩
  by_contra hne
  obtain ⟨more, hmore⟩ := Option.ne_none_iff_exists'.1 hne
  have hleads := leadsTo_of_path _ single hpath (Nat.lt_succ_self _)
  rw [(eq_append_of_startWaiting hmore).2] at hleads
  cases hleads

theorem single_append {place : Address} (single : (edges.map (·.waiter)).Nodup)
    (hfree : ∀ e ∈ edges, e.waiter ≠ t) : ((edges ++ [(⟨t, place, u⟩ : WaitEdge)]).map (·.waiter)).Nodup := by
  rw [List.map_append, List.map_singleton]
  refine List.nodup_append.2 ⟨single, List.nodup_singleton _, fun w hw w' hw' heq => ?_⟩
  obtain ⟨e, he, rfl⟩ := List.mem_map.1 hw
  exact hfree e he (heq.trans (List.mem_singleton.1 hw'))

/-- A new edge that is put down closes no circle. -/
theorem acyclic_startWaiting {place : Address} {more : List WaitEdge} (single : (edges.map (·.waiter)).Nodup)
    (acyclic : ∀ t, ¬ Relation.TransGen (Waits edges) t t) (hstart : startWaiting edges t place u = some more) :
    ∀ t, ¬ Relation.TransGen (Waits more) t t := by
  obtain ⟨rfl, hleads⟩ := eq_append_of_startWaiting hstart
  intro v hcycle
  rcases path_of_append hcycle with hold | ⟨hto, hfrom⟩
  · exact acyclic v hold
  · have hfound := leadsTo_of_path _ single (hfrom.trans hto) (Nat.lt_succ_self _)
    rw [hleads] at hfound
    cases hfound

theorem Orderly.startWaiting (h : Orderly edges) {place : Address} {more : List WaitEdge}
    (hfree : ∀ e ∈ edges, e.waiter ≠ t) (hstart : startWaiting edges t place u = some more) :
    more = edges ++ [⟨t, place, u⟩] ∧ Orderly more := by
  obtain ⟨rfl, -⟩ := eq_append_of_startWaiting hstart
  exact ⟨rfl, single_append h.single hfree, acyclic_startWaiting h.single h.acyclic hstart⟩

/-- Of a thread that waits for nothing, a thread that looks at a place being computed learns exactly whether the owner
waits for it, whatever circles there are beside it. It is refused and the edges stay as they are, or it goes to sleep with
one edge more; and a search that may go on for longer comes to the same answer. -/
theorem refused_iff_path {edges : List WaitEdge} {waiter owner : Thread} {place : Address}
    (single : (edges.map (·.waiter)).Nodup) (free : ∀ e ∈ edges, e.waiter ≠ waiter) :
    (startWaiting edges waiter place owner = none ↔ Relation.ReflTransGen (Waits edges) owner waiter) ∧
      (∀ more, startWaiting edges waiter place owner = some more →
        more = edges ++ [⟨waiter, place, owner⟩] ∧ (more.map (·.waiter)).Nodup ∧
          ((∀ t, ¬ Relation.TransGen (Waits edges) t t) → ∀ t, ¬ Relation.TransGen (Waits more) t t)) ∧
      (∀ longer, leadsTo edges waiter (edges.length + 1 + longer) owner =
        leadsTo edges waiter (edges.length + 1) owner) ∧
      ∀ s : Slots, s.edges = edges → s.slot place = .computing owner →
        s.acquire waiter place =
          match startWaiting edges waiter place owner with
          | none => (s, some .refused)
          | some more => ({ s with edges := more }, none) := by
  refine ⟨startWaiting_eq_none_iff single, fun more hmore => ?_, fun longer => ?_, ?_⟩
  · obtain ⟨rfl, -⟩ := eq_append_of_startWaiting hmore
    exact ⟨rfl, single_append single free, fun acyclic => acyclic_startWaiting single acyclic hmore⟩
  · rw [Bool.eq_iff_iff, leadsTo_iff single (by omega), leadsTo_iff single (by omega)]
  · rintro ⟨slot, edges⟩ rfl hslot
    simp only at free hslot
    have hstop : stopWaiting edges waiter = edges :=
      List.filter_eq_self.2 fun e he => by simpa using free e he
    unfold Slots.acquire
    simp only [hstop, hslot]
    cases startWaiting edges waiter place owner <;> rfl

/-- So many threads that each waits for the next one. -/
def chain (place : Address) (count : Nat) : List WaitEdge :=
  (List.range count).map fun t => ⟨t, place, t + 1⟩

/-- Three threads in a row, and beside them two that wait for each other. -/
def jam : List WaitEdge :=
  let place : Address := ⟨0, .ofType ⟨1, "Tap", .number⟩⟩
  chain place 3 ++ [⟨7, place, 8⟩, ⟨8, place, 7⟩]

/-- The first in the row waits for the thread behind it, and those that go round in a circle do not. -/
theorem refused_iff_path_jam :
    Relation.ReflTransGen (Waits jam) 0 3 ∧ ¬ Relation.ReflTransGen (Waits jam) 7 3 := by
  let place : Address := ⟨0, .ofType ⟨1, "Tap", .number⟩⟩
  have hsingle : (jam.map (·.waiter)).Nodup := by decide
  have hfree : ∀ e ∈ jam, e.waiter ≠ 3 := by decide
  have hrefused : startWaiting jam 3 place 0 = none := by decide
  have hwaits : startWaiting jam 3 place 7 ≠ none := by decide
  exact ⟨(refused_iff_path hsingle hfree).1.1 hrefused, fun hpath => hwaits ((refused_iff_path hsingle hfree).1.2 hpath)⟩

/-- With one step less the search would miss the way along all the edges. -/
theorem leadsTo_chain (place : Address) (count : Nat) {steps : Nat} (ht : t ≤ count) :
    leadsTo (chain place count) count steps t = true ↔ count < t + steps := by
  induction steps generalizing t with
  | zero => simpa [leadsTo] using ht
  | succ steps ih =>
      unfold leadsTo
      by_cases heq : t = count
      · simp [heq]
      · have hlt : t < count := Nat.lt_of_le_of_ne ht heq
        have hsingle : ((chain place count).map (·.waiter)).Nodup := by
          simp [chain, Function.comp_def, List.nodup_range]
        have hmem : (⟨t, place, t + 1⟩ : WaitEdge) ∈ chain place count :=
          List.mem_map.2 ⟨t, List.mem_range.2 hlt, rfl⟩
        rw [if_neg heq, find?_of_mem hsingle hmem rfl]
        refine (ih hlt).trans ?_
        rw [Nat.succ_add_eq_add_succ]

/-- Following the owners from any thread, one comes to a thread that does not wait. -/
theorem Orderly.exists_last (h : Orderly edges) (t : Thread) :
    ∃ u, Relation.ReflTransGen (Waits edges) t u ∧ ∀ e ∈ edges, e.waiter ≠ u := by
  induction hlength : edges.length using Nat.strongRecOn generalizing edges t with
  | _ n ih =>
      by_cases hwaits : ∃ e ∈ edges, e.waiter = t
      · obtain ⟨e, he, hwaiter⟩ := hwaits
        have hstep : Waits edges t e.owner := ⟨e, he, hwaiter, rfl⟩
        obtain ⟨u, hpath, hlast⟩ := ih _ (hlength ▸ length_stopWaiting_lt he hwaiter)
          (h.sublist (stopWaiting_sublist edges _)) e.owner rfl
        have hpath : Relation.ReflTransGen (Waits edges) e.owner u :=
          hpath.lift id fun _ _ ⟨f, hf, hends⟩ => ⟨f, (mem_stopWaiting.1 hf).1, hends⟩
        refine ⟨u, hpath.head hstep, fun f hf hfu => ?_⟩
        have hne : u ≠ t := (h.waits_stopWaiting hstep hpath).2
        exact hlast f (mem_stopWaiting.2 ⟨hf, hfu ▸ hne⟩) hfu
      · exact ⟨t, .refl, fun e he heq => hwaits ⟨e, he, heq⟩⟩

end WaitEdge

end Injection
