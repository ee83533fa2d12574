/-!
Putting things in order. Texts are compared character by character, by code point. Things of which neither comes before
the other keep the order they came in, so the result depends on the input's order only among those.
-/

namespace Injection.Text

variable {α : Type}

/-- An element put before the first one that does not come before it. -/
def insertBy (before : α → α → Bool) (a : α) : List α → List α
  | [] => [a]
  | b :: bs => if before b a then b :: insertBy before a bs else a :: b :: bs

def sortBy (before : α → α → Bool) : List α → List α
  | [] => []
  | a :: as => insertBy before a (sortBy before as)

def sortOn (text : α → String) (as : List α) : List α :=
  (sortBy (fun x y => x.1 < y.1) (as.map fun a => (text a, a))).map Prod.snd

theorem insertBy_perm (before : α → α → Bool) (a : α) (as : List α) : (insertBy before a as).Perm (a :: as) := by
  induction as with
  | nil => exact .refl _
  | cons b bs ih =>
    rw [insertBy]
    split
    · exact (ih.cons b).trans (.swap a b bs)
    · exact .refl _

theorem sortBy_perm (before : α → α → Bool) (as : List α) : (sortBy before as).Perm as := by
  induction as with
  | nil => exact .refl _
  | cons a as ih => exact (insertBy_perm before a (sortBy before as)).trans (ih.cons a)

theorem sortOn_perm (text : α → String) (as : List α) : (sortOn text as).Perm as := by
  simpa [sortOn, Function.comp_def] using (sortBy_perm _ (as.map fun a => (text a, a))).map Prod.snd

@[simp] theorem mem_sortOn {text : α → String} {a : α} {as : List α} : a ∈ sortOn text as ↔ a ∈ as :=
  (sortOn_perm text as).mem_iff

theorem sortOn_eq_nil {text : α → String} {as : List α} : sortOn text as = [] ↔ as = [] :=
  ⟨fun h => List.nil_perm.1 (h ▸ sortOn_perm text as), fun h => by rw [h]; rfl⟩

/-- Things with their texts stay in order when another one is put among them. -/
theorem pairwise_insertBy {text : α → String} (a : α) {bs : List (String × α)} (htext : ∀ b ∈ bs, b.1 = text b.2)
    (hsorted : (bs.map Prod.snd).Pairwise (text · ≤ text ·)) :
    ((insertBy (fun x y => x.1 < y.1) (text a, a) bs).map Prod.snd).Pairwise (text · ≤ text ·) := by
  induction bs with
  | nil => exact List.pairwise_singleton _ a
  | cons b bs ih =>
      obtain ⟨hb, htext⟩ := List.forall_mem_cons.1 htext
      obtain ⟨hfirst, hrest⟩ := List.pairwise_cons.1 hsorted
      rw [insertBy]
      split
      · next hbefore =>
        refine List.pairwise_cons.2 ⟨fun c hc => ?_, ih htext hrest⟩
        rcases List.mem_cons.1 (((insertBy_perm _ _ bs).map Prod.snd).mem_iff.1 hc) with rfl | hc
        · exact String.not_lt.1 (String.lt_asymm (by simpa [hb] using hbefore))
        · exact hfirst c hc
      · next hbefore =>
        have hle : text a ≤ text b.2 := String.not_lt.1 (by simpa [hb] using hbefore)
        refine List.pairwise_cons.2 ⟨List.forall_mem_cons.2 ⟨hle, fun c hc => ?_⟩, hsorted⟩
        exact String.le_trans hle (hfirst c hc)

/-- Putting things in order leaves none before another one that comes before it. -/
theorem pairwise_sortOn (text : α → String) (as : List α) : (sortOn text as).Pairwise (text · ≤ text ·) := by
  induction as with
  | nil => exact .nil
  | cons a as ih =>
      refine pairwise_insertBy a (fun b hb => ?_) ih
      obtain ⟨c, -, rfl⟩ := List.mem_map.1 ((sortBy_perm _ _).mem_iff.1 hb)
      rfl

/-- Things that are told apart by their texts come out in one order, in whatever order they came in. -/
theorem sortOn_eq_of_perm {text : α → String} {as bs : List α} (h : as.Perm bs)
    (htold : ∀ a ∈ as, ∀ b ∈ as, text a = text b → a = b) : sortOn text as = sortOn text bs := by
  refine List.Perm.eq_of_pairwise (fun a b ha hb hab hba => ?_) (pairwise_sortOn text as) (pairwise_sortOn text bs)
    ((sortOn_perm text as).trans (h.trans (sortOn_perm text bs).symm))
  exact htold a (mem_sortOn.1 ha) b (h.mem_iff.2 (mem_sortOn.1 hb)) (String.le_antisymm hab hba)

end Injection.Text
