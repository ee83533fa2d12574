import Injection.Registry
import Mathlib.Data.List.Find
import Mathlib.Data.List.Nodup

/-!
What registering keeps up. A registry has each key once, whatever was registered in whatever order; so what it binds
under its keys is all there is to it, but for the order of its bindings.
-/

namespace Injection

namespace Registry

variable {r r' : Registry}

theorem contains_iff {k : Key} : r.contains k = true ↔ k ∈ r.keys := by
  simp [contains, lookup, keys]

/-- In one program, what a key is bound to can be found by the numbers of types. -/
theorem lookup_eq_find?_sameAs {table : TypeTable} {k : Key} (hr : ∀ b ∈ r.bindings, b.key.type ∈ table.types)
    (hk : k.type ∈ table.types) : r.lookup k = r.bindings.find? (·.key.sameAs k) := by
  rw [lookup]
  apply List.find?_congr
  intro b hb
  rw [Bool.eq_iff_iff, decide_eq_true_iff]
  exact Key.eq_iff_sameAs (hr b hb) hk

theorem contains_congr (h : ∀ k, r.lookup k = r'.lookup k) (k : Key) : r.contains k = r'.contains k := by
  rw [contains, contains, h]

theorem keys_replace (r : Registry) (b : Binding) : (r.replace b).keys = r.keys := by
  simp only [replace, keys, List.map_map]
  apply List.map_congr_left
  intro c _
  by_cases hkey : c.key = b.key <;> simp [hkey]

theorem nodup_register {b : Binding} (hr : r.keys.Nodup) (h : r.register b = .ok r') : r'.keys.Nodup := by
  unfold register at h
  split at h
  · split at h
    · cases h
    · obtain rfl := Except.ok.inj h
      rwa [keys_replace]
    · exact Except.ok.inj h ▸ hr
  · next hfree =>
    obtain rfl := Except.ok.inj h
    rw [contains_iff] at hfree
    simp only [keys, List.map_append, List.map_cons, List.map_nil]
    exact List.nodup_append.2 ⟨hr, List.nodup_singleton _, fun k hk k' hk' heq =>
      hfree (List.mem_singleton.1 hk' ▸ heq ▸ hk)⟩

theorem mem_of_register {b c : Binding} (h : r.register b = .ok r') (hc : c ∈ r'.bindings) :
    c = b ∨ c ∈ r.bindings := by
  unfold register at h
  split at h
  · split at h
    · cases h
    · obtain rfl := Except.ok.inj h
      obtain ⟨old, hold, rfl⟩ := List.mem_map.1 hc
      split
      · exact .inl rfl
      · exact .inr hold
    · exact .inr (Except.ok.inj h ▸ hc)
  · obtain rfl := Except.ok.inj h
    exact (List.mem_append.1 hc).symm.imp_left List.mem_singleton.1

theorem nodup_registerAll (bs : List Binding) (hr : r.keys.Nodup) : (r.registerAll bs).1.keys.Nodup := by
  induction bs generalizing r with
  | nil => exact hr
  | cons b bs ih =>
      rw [registerAll]
      split
      · next hregister => exact ih (nodup_register hr hregister)
      · exact ih hr

/-- Each own binding of a registry without repetitions is found under its key. -/
theorem lookup_of_mem (h : r.keys.Nodup) {b : Binding} (hb : b ∈ r.bindings) : r.lookup b.key = some b := by
  obtain ⟨c, hc⟩ := Option.isSome_iff_exists.1 (contains_iff.2 (List.mem_map_of_mem hb) : r.contains b.key = true)
  have hkey := key_of_lookup hc
  rwa [List.inj_on_of_nodup_map h (List.mem_of_find?_eq_some hc) hb hkey] at hc

theorem lookup_eq_some_iff (h : r.keys.Nodup) {k : Key} {b : Binding} :
    r.lookup k = some b ↔ b ∈ r.bindings ∧ b.key = k := by
  constructor
  · exact fun hlookup => ⟨List.mem_of_find?_eq_some hlookup, key_of_lookup hlookup⟩
  · rintro ⟨hb, rfl⟩
    exact lookup_of_mem h hb

/-- Registries that bind the same under every key have the same bindings. -/
theorem perm_of_lookup_eq (h : r.keys.Nodup) (h' : r'.keys.Nodup) (hlookup : ∀ k, r.lookup k = r'.lookup k) :
    r.bindings.Perm r'.bindings := by
  refine (List.perm_ext_iff_of_nodup h.of_map h'.of_map).2 fun b => ?_
  rw [← and_iff_left (a := b ∈ r.bindings) (rfl : b.key = b.key), ← lookup_eq_some_iff h, hlookup,
    lookup_eq_some_iff h', and_iff_left rfl]

theorem lookup_eq_of_perm (h : r.keys.Nodup) (hperm : r'.bindings.Perm r.bindings) (k : Key) :
    r'.lookup k = r.lookup k := by
  have h' : r'.keys.Nodup := (hperm.map BindingOf.key).nodup_iff.2 h
  ext b
  rw [lookup_eq_some_iff h, lookup_eq_some_iff h', hperm.mem_iff]

end Registry

end Injection
