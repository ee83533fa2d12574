import Injection.Proofs.Ownership
import Injection.Proofs.Registering
import Injection.Resolution
import Mathlib.Data.List.Induction

/-!
Bindings that are offered one after the other. What a registry holds in the end can be read off the sequence: under each
key the last binding that came first or overrides. Refused is exactly who will not give way and comes late, and then
nothing has changed. A builder takes offers in the same way, whether they are made for good or only tried; it answers
for the first refusal of one that was made for good, and for no other.
-/

namespace Injection

/-! ### Registries -/

/-- In a sequence of offers, the binding has the last word on its key: it came first or overrides, and none after it
overrides. -/
def Prevails (bs : List Binding) (b : Binding) : Prop :=
  ∃ before after, bs = before ++ b :: after ∧ (b.policy = .override ∨ ∀ c ∈ before, c.key ≠ b.key) ∧
    ∀ c ∈ after, c.key = b.key → c.policy ≠ .override

/-- After such offers, the binding is one too many: its key is taken, and it neither overrides nor gives way. -/
def Refused (before : List Binding) (b : Binding) : Prop := b.policy = .fail ∧ ∃ c ∈ before, c.key = b.key

theorem Prevails.mem {bs : List Binding} {b : Binding} (h : Prevails bs b) : b ∈ bs := by
  obtain ⟨before, after, rfl, -⟩ := h
  simp

theorem not_prevails_nil (b : Binding) : ¬ Prevails [] b := fun h => nomatch h.mem

/-- The last offer prevails if it can; otherwise, or besides, whoever it does not override still does. -/
theorem prevails_concat {bs : List Binding} {b c : Binding} :
    Prevails (bs ++ [c]) b ↔
      (b = c ∧ (c.policy = .override ∨ ∀ d ∈ bs, d.key ≠ c.key)) ∨
        (Prevails bs b ∧ (c.key = b.key → c.policy ≠ .override)) := by
  constructor
  · rintro ⟨before, after, heq, hbefore, hafter⟩
    rcases List.eq_nil_or_concat after with rfl | ⟨after, d, rfl⟩
    · obtain ⟨rfl, hlast⟩ := List.append_inj' heq rfl
      obtain rfl : c = b := by simpa using hlast
      exact .inl ⟨rfl, hbefore⟩
    · rw [List.concat_eq_append, ← List.cons_append, ← List.append_assoc] at heq
      obtain ⟨rfl, hlast⟩ := List.append_inj' heq rfl
      obtain rfl : c = d := by simpa using hlast
      refine .inr ⟨⟨before, after, rfl, hbefore, fun e he => hafter e ?_⟩, hafter c ?_⟩ <;> simp [*]
  · rintro (⟨rfl, hbefore⟩ | ⟨⟨before, after, rfl, hbefore, hafter⟩, hlast⟩)
    · exact ⟨bs, [], rfl, hbefore, by simp⟩
    · refine ⟨before, after ++ [c], by simp, hbefore, fun d hd => ?_⟩
      rcases List.mem_append.1 hd with hd | hd
      · exact hafter d hd
      · exact List.mem_singleton.1 hd ▸ hlast

theorem distinct_concat {α : Type} [DecidableEq α] (as : List α) (a : α) :
    distinct (as ++ [a]) = if a ∈ as then distinct as else distinct as ++ [a] := by
  induction as with
  | nil => rfl
  | cons c as ih =>
      rw [List.cons_append, distinct, ih, distinct]
      by_cases heq : a = c
      · subst heq
        by_cases hmem : a ∈ as <;> simp [hmem, List.filter_append]
      · by_cases hmem : a ∈ as <;> simp [hmem, heq, List.filter_append]

namespace Registry

variable {r : Registry} {b : Binding} {k : Key}

/-- The registry after an offer, which a refusal leaves as it was. -/
def enroll (r : Registry) (b : Binding) : Registry :=
  match r.register b with
  | .ok r => r
  | .error _ => r

theorem registerAll_eq_foldl (r : Registry) (bs : List Binding) : (r.registerAll bs).1 = bs.foldl enroll r := by
  induction bs generalizing r with
  | nil => rfl
  | cons b bs ih =>
      rw [registerAll, List.foldl_cons, enroll]
      rcases r.register b with e | r' <;> exact ih _

theorem lookup_replace (r : Registry) (b : Binding) (k : Key) :
    (r.replace b).lookup k = if b.key = k then (r.lookup k).map fun _ => b else r.lookup k := by
  obtain ⟨bs⟩ := r
  simp only [lookup, replace]
  induction bs with
  | nil => simp
  | cons c bs ih =>
      rw [List.map_cons, List.find?_cons, List.find?_cons, ih]
      by_cases hkey : c.key = b.key
      · by_cases hk : b.key = k <;> simp [hkey, hk]
      · by_cases hk : c.key = k
        · have hother : b.key ≠ k := fun heq => hkey (hk.trans heq.symm)
          simp [hk, hother, hother.symm]
        · simp [hkey, hk]

theorem lookup_eq_none_iff : r.lookup k = none ↔ r.contains k = false := by simp [contains]

/-- What an offer changes: it is what its key stands for if the key was free or the offer overrides. -/
theorem lookup_enroll (r : Registry) (b : Binding) (k : Key) :
    (r.enroll b).lookup k =
      if b.key = k ∧ (b.policy = .override ∨ r.contains k = false) then some b else r.lookup k := by
  rw [enroll, register]
  by_cases htaken : r.contains b.key
  · rw [if_pos htaken]
    obtain ⟨c, hc⟩ : ∃ c, r.lookup b.key = some c := Option.isSome_iff_exists.1 htaken
    by_cases hk : b.key = k
    · subst hk
      cases hpolicy : b.policy <;> simp [htaken, lookup_replace, hc]
    · cases hpolicy : b.policy <;> simp [hk, lookup_replace]
  · rw [if_neg htaken]
    have hfree : r.lookup b.key = none := lookup_eq_none_iff.2 (by simpa using htaken)
    by_cases hk : b.key = k
    · subst hk
      simp only [lookup] at hfree
      simp [lookup, contains, List.find?_append, hfree]
    · have happend : List.find? (fun c => decide (c.key = k)) [b] = none := by simp [hk]
      simp [lookup, List.find?_append, happend, hk]

theorem keys_enroll (r : Registry) (b : Binding) :
    (r.enroll b).keys = if r.contains b.key then r.keys else r.keys ++ [b.key] := by
  rw [enroll, register]
  by_cases htaken : r.contains b.key
  · rw [if_pos htaken, if_pos htaken]
    cases b.policy
    · rfl
    · exact keys_replace r b
    · rfl
  · rw [if_neg htaken, if_neg htaken]
    simp [keys]

theorem register_eq_error_iff {e : RegistryError} :
    r.register b = .error e ↔ e = .duplicate b.key ∧ b.policy = .fail ∧ r.contains b.key = true := by
  rw [register]
  by_cases htaken : r.contains b.key
  · rw [if_pos htaken]
    cases b.policy <;> simp [htaken, eq_comm]
  · simp [htaken]

/-! ### What a sequence of offers comes to -/

theorem keys_registerAll (bs : List Binding) : (empty.registerAll bs).1.keys = distinct (bs.map (·.key)) := by
  rw [registerAll_eq_foldl]
  induction bs using List.reverseRecOn with
  | nil => rfl
  | append_singleton bs b ih =>
      have htaken : (bs.foldl enroll empty).contains b.key = true ↔ b.key ∈ bs.map (·.key) := by
        rw [contains_iff, ih, mem_distinct]
      rw [List.foldl_append, List.foldl_cons, List.foldl_nil, keys_enroll, ih, List.map_append, List.map_cons,
        List.map_nil, distinct_concat]
      simp only [htaken]

theorem contains_registerAll (bs : List Binding) (k : Key) :
    (empty.registerAll bs).1.contains k = true ↔ ∃ b ∈ bs, b.key = k := by
  rw [contains_iff, keys_registerAll, mem_distinct, List.mem_map]

theorem lookup_registerAll (bs : List Binding) (k : Key) (b : Binding) :
    (empty.registerAll bs).1.lookup k = some b ↔ b.key = k ∧ Prevails bs b := by
  induction bs using List.reverseRecOn with
  | nil => simp [registerAll, empty, lookup, not_prevails_nil]
  | append_singleton bs c ih =>
      have hfree : (empty.registerAll bs).1.contains k = false ↔ ∀ d ∈ bs, d.key ≠ k := by
        rw [Bool.eq_false_iff, Ne, contains_registerAll]
        simp
      rw [registerAll_eq_foldl, List.foldl_append, List.foldl_cons, List.foldl_nil, ← registerAll_eq_foldl,
        lookup_enroll, prevails_concat]
      simp only [hfree]
      split
      · next hlast =>
        obtain ⟨rfl, hlast⟩ := hlast
        constructor
        · rintro ⟨⟩
          exact ⟨rfl, .inl ⟨rfl, hlast⟩⟩
        · rintro ⟨hkey, ⟨rfl, -⟩ | ⟨hb, hover⟩⟩
          · rfl
          · -- the last offer overrides, or nobody had its key before
            rcases hlast with hlast | hlast
            · exact absurd hlast (hover hkey.symm)
            · exact absurd hkey (hlast b hb.mem)
      · next hlast =>
        rw [ih]
        constructor
        · rintro ⟨rfl, hb⟩
          exact ⟨rfl, .inr ⟨hb, fun hkey hover => hlast ⟨hkey, .inl hover⟩⟩⟩
        · rintro ⟨rfl, ⟨rfl, hpolicy⟩ | ⟨hb, -⟩⟩
          · exact absurd ⟨rfl, hpolicy⟩ hlast
          · exact ⟨rfl, hb⟩

theorem register_registerAll (bs : List Binding) (b : Binding) (e : RegistryError) :
    (empty.registerAll bs).1.register b = .error e ↔ e = .duplicate b.key ∧ Refused bs b := by
  rw [register_eq_error_iff, contains_registerAll, Refused]

theorem enroll_of_refused {bs : List Binding} (h : Refused bs b) :
    (empty.registerAll bs).1.enroll b = (empty.registerAll bs).1 := by
  rw [enroll, (register_registerAll bs b _).2 ⟨rfl, h⟩]

/-- What a registry has come to after a sequence of offers, and what it makes of one more. -/
structure ClosedForm (bs : List Binding) (r : Registry) : Prop where
  lookup : ∀ k b, r.lookup k = some b ↔ b.key = k ∧ Prevails bs b
  unbound : ∀ k, r.lookup k = none ↔ ∀ b ∈ bs, b.key ≠ k
  contains : ∀ k, r.contains k = true ↔ ∃ b ∈ bs, b.key = k
  keys : r.keys = distinct (bs.map (·.key))
  size : r.size = (distinct (bs.map (·.key))).length
  refuses : ∀ b e, r.register b = .error e ↔ e = .duplicate b.key ∧ Refused bs b
  unchanged : ∀ b, Refused bs b → (empty.registerAll (bs ++ [b])).1 = r

theorem closedForm_registerAll (bs : List Binding) : ClosedForm bs (empty.registerAll bs).1 where
  lookup := lookup_registerAll bs
  unbound k := by
    rw [lookup_eq_none_iff, Bool.eq_false_iff, Ne, contains_registerAll]
    simp
  contains := contains_registerAll bs
  keys := keys_registerAll bs
  size := by rw [← keys_registerAll bs, keys, List.length_map, size]
  refuses := register_registerAll bs
  unchanged b hb := by
    rw [registerAll_eq_foldl, List.foldl_append, ← registerAll_eq_foldl empty]
    exact enroll_of_refused hb

end Registry

/-! ### Builders -/

/-- A binding that a builder is offered, for good or only as a try. -/
structure Offer where
  binding : Binding
  tried : Bool

namespace Builder

variable {b : Builder} {offers before after : List Offer} {offer : Offer}

/-- The builder after an offer. A refusal of one that was only tried is for whoever tried it. -/
def take (b : Builder) (offer : Offer) : Builder :=
  if offer.tried then
    match b.tryAdd offer.binding with
    | .ok b => b
    | .error _ => b
  else b.add offer.binding

def takeAll (b : Builder) (offers : List Offer) : Builder := offers.foldl take b

/-- A builder that was offered nothing yet. -/
structure Untouched (b : Builder) : Prop where
  registry : b.registry = .empty
  rejected : b.rejected = []

/-- Of some offers, made one after the other, this is the first one made for good that is refused. -/
structure FirstRefusal (before : List Offer) (offer : Offer) : Prop where
  meant : offer.tried = false
  refused : Refused (before.map (·.binding)) offer.binding
  first : ∀ earlier other later, before = earlier ++ other :: later → other.tried = false →
    ¬ Refused (earlier.map (·.binding)) other.binding

theorem registry_take (b : Builder) (offer : Offer) : (b.take offer).registry = b.registry.enroll offer.binding := by
  unfold take add tryAdd Registry.enroll
  rcases b.registry.register offer.binding with e | registry <;> cases offer.tried <;> rfl

theorem rejected_take (b : Builder) (offer : Offer) :
    (b.take offer).rejected =
      match b.registry.register offer.binding with
      | .ok _ => b.rejected
      | .error e => if offer.tried then b.rejected else b.rejected ++ [e] := by
  unfold take add tryAdd
  rcases b.registry.register offer.binding with e | registry <;> cases offer.tried <;> rfl

theorem registry_takeAll (h : b.Untouched) (offers : List Offer) :
    (b.takeAll offers).registry = (Registry.empty.registerAll (offers.map (·.binding))).1 := by
  rw [Registry.registerAll_eq_foldl, ← h.registry, takeAll]
  generalize b = b
  induction offers generalizing b with
  | nil => rfl
  | cons offer offers ih => rw [List.foldl_cons, ih, registry_take, List.map_cons, List.foldl_cons]

theorem takeAll_concat (b : Builder) (offers : List Offer) (offer : Offer) :
    b.takeAll (offers ++ [offer]) = (b.takeAll offers).take offer := by
  rw [takeAll, List.foldl_append]
  rfl

/-- What was only tried and refused has left no trace. -/
theorem takeAll_of_tried (h : b.Untouched) (htried : offer.tried = true)
    (hrefused : Refused (before.map (·.binding)) offer.binding) (after : List Offer) :
    b.takeAll (before ++ offer :: after) = b.takeAll (before ++ after) := by
  have herror : (b.takeAll before).registry.register offer.binding = .error (.duplicate offer.binding.key) := by
    rw [registry_takeAll h, Registry.register_registerAll]
    exact ⟨rfl, hrefused⟩
  have hsame : (b.takeAll before).take offer = b.takeAll before := by
    rw [take, if_pos htried, tryAdd, herror]
    rfl
  simp only [takeAll, List.foldl_append, List.foldl_cons] at hsame ⊢
  rw [hsame]

theorem rejected_takeAll_of_accepted (h : b.Untouched) (hnone : ∀ before offer after,
    offers = before ++ offer :: after → offer.tried = false → ¬ Refused (before.map (·.binding)) offer.binding) :
    (b.takeAll offers).rejected = [] := by
  induction offers using List.reverseRecOn with
  | nil => exact h.rejected
  | append_singleton offers offer ih =>
      have ih := ih fun before other after heq =>
        hnone before other (after ++ [offer]) (by rw [heq, List.append_assoc, List.cons_append])
      rw [takeAll_concat, rejected_take, registry_takeAll h]
      rcases hregister : (Registry.empty.registerAll _).1.register offer.binding with e | registry
      · obtain ⟨rfl, hrefused⟩ := (Registry.register_registerAll _ _ _).1 hregister
        rcases htried : offer.tried
        · exact absurd hrefused (hnone offers offer [] rfl htried)
        · simpa using ih
      · exact ih

theorem rejected_prefix_take (b : Builder) (offer : Offer) : b.rejected <+: (b.take offer).rejected := by
  rw [rejected_take]
  split
  · exact List.prefix_refl _
  · split
    · exact List.prefix_refl _
    · exact List.prefix_append _ _

theorem rejected_prefix_takeAll (b : Builder) (offers : List Offer) : b.rejected <+: (b.takeAll offers).rejected := by
  induction offers generalizing b with
  | nil => exact List.prefix_refl _
  | cons offer offers ih => exact (rejected_prefix_take b offer).trans (ih (b.take offer))

/-- The first refusal comes first among those that the builder has to answer for. -/
theorem head?_rejected_takeAll (h : b.Untouched) (hfirst : FirstRefusal before offer) (after : List Offer) :
    (b.takeAll (before ++ offer :: after)).rejected.head? = some (.duplicate offer.binding.key) := by
  have hbefore : (b.takeAll before).rejected = [] := rejected_takeAll_of_accepted h hfirst.first
  have herror := (Registry.register_registerAll _ _ _).2 ⟨rfl, hfirst.refused⟩
  have hthen : ((b.takeAll before).take offer).rejected = [.duplicate offer.binding.key] := by
    rw [rejected_take, registry_takeAll h, herror, hbefore, hfirst.meant]
    rfl
  have hrejected := rejected_prefix_takeAll ((b.takeAll before).take offer) after
  rw [hthen] at hrejected
  obtain ⟨rest, hrest⟩ := hrejected
  have hall : b.takeAll (before ++ offer :: after) = ((b.takeAll before).take offer).takeAll after := by
    simp only [takeAll, List.foldl_append, List.foldl_cons]
  rw [hall, ← hrest]
  rfl

theorem build_of_rejected {e : RegistryError} (h : b.rejected.head? = some e) :
    b.build = Attempt.fail (.registry e) := by
  rw [build]
  rcases hrejected : b.rejected with _ | ⟨d, ds⟩ <;> rw [hrejected] at h <;> cases h
  rfl

theorem eval_build_ne_registry (h : b.rejected = []) (me : Thread) (s : Store) (e : RegistryError) :
    (b.build.eval me s).1 ≠ .error (.failed (.registry e)) := by
  rw [build, h]
  simp only [Attempt.eval_bind, Attempt.eval_tell, Attempt.eval_tellAll]
  rcases Graph.link b.registry b.parents with es | graph
  · simp
  · simp [Attempt.eval_bind, Except.map]

/-- What becomes of the offers that a builder was made: it holds what a registry would, and building it, eagerly or not,
goes wrong for the first refusal of what was meant for good, before anything else is done, or for none. -/
structure Gathers (b : Builder) (offers : List Offer) : Prop where
  registry : (b.takeAll offers).registry = (Registry.empty.registerAll (offers.map (·.binding))).1
  tried : ∀ before offer after, offers = before ++ offer :: after → offer.tried = true →
    Refused (before.map (·.binding)) offer.binding → b.takeAll offers = b.takeAll (before ++ after)
  refused : ∀ before offer after, offers = before ++ offer :: after → FirstRefusal before offer →
    (b.takeAll offers).build = Attempt.fail (.registry (.duplicate offer.binding.key)) ∧
      ∀ eager, (b.takeAll offers).finish eager = Attempt.fail (.registry (.duplicate offer.binding.key))
  accepted : (∀ before offer after, offers = before ++ offer :: after → ¬ FirstRefusal before offer) →
    ∀ me s e, ((b.takeAll offers).build.eval me s).1 ≠ .error (.failed (.registry e))

/-- Either one of the offers is the first that was made for good and refused, or all such were accepted. -/
theorem firstRefusal_or_accepted (offers : List Offer) :
    (∃ before offer after, offers = before ++ offer :: after ∧ FirstRefusal before offer) ∨
      ∀ before offer after, offers = before ++ offer :: after → offer.tried = false →
        ¬ Refused (before.map (·.binding)) offer.binding := by
  induction offers using List.reverseRecOn with
  | nil => exact .inr fun before offer after heq => absurd heq (by simp)
  | append_singleton offers last ih =>
      rcases ih with ⟨before, offer, after, rfl, hfirst⟩ | hnone
      · exact .inl ⟨before, offer, after ++ [last], by simp, hfirst⟩
      by_cases hlast : last.tried = false ∧ Refused (offers.map (·.binding)) last.binding
      · exact .inl ⟨offers, last, [], rfl, hlast.1, hlast.2, hnone⟩
      · refine .inr fun before offer after heq htried hrefused => ?_
        rcases List.eq_nil_or_concat after with rfl | ⟨after, other, rfl⟩
        · obtain ⟨rfl, hsame⟩ := List.append_inj' heq rfl
          obtain rfl : last = offer := by simpa using hsame
          exact hlast ⟨htried, hrefused⟩
        · rw [List.concat_eq_append, ← List.cons_append, ← List.append_assoc] at heq
          exact hnone before offer after (List.append_inj' heq rfl).1 htried hrefused

theorem gathers (h : b.Untouched) (offers : List Offer) : b.Gathers offers where
  registry := registry_takeAll h offers
  tried := by
    rintro before offer after rfl htried hrefused
    exact takeAll_of_tried h htried hrefused after
  refused := by
    rintro before offer after rfl hfirst
    have hbuild := build_of_rejected (head?_rejected_takeAll h hfirst after)
    refine ⟨hbuild, fun eager => ?_⟩
    rw [finish, buildThen, hbuild]
    rfl
  accepted hnone := by
    refine eval_build_ne_registry (rejected_takeAll_of_accepted h ?_)
    refine (firstRefusal_or_accepted offers).resolve_left ?_
    rintro ⟨before, offer, after, heq, hfirst⟩
    exact hnone before offer after heq hfirst

end Builder

/-- Registering one binding after the other comes to what the sequence says, and so it does through a builder, with
whatever label and below whatever parents. -/
theorem Registry.closedForm_of_offers :
    (∀ bs, ClosedForm bs (empty.registerAll bs).1) ∧
      ∀ (label : String) (parents : List Container) (offers : List Offer),
        Builder.Gathers { Builder.new with label, parents } offers :=
  ⟨closedForm_registerAll, fun _ _ offers => Builder.gathers ⟨rfl, rfl⟩ offers⟩

end Injection
