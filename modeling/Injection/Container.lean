import Injection.Registry
import Injection.Graph

/-!
Containers as they are once linked: a registry, parents that lend their bindings, and the graph that says where the
binding of each key is. A container never changes; what its scoped bindings have constructed is kept elsewhere, by the
container's number. Two containers with one number are one and the same, so whoever goes through all ancestors of a
container meets each of them once, by its number, however many ways lead there.
-/

namespace Injection

/-- A linked container. -/
structure Container where
  id : Nat
  label : String
  registry : Registry
  parents : List Container
  graph : Graph

namespace Container

mutual

/-- The container whose own binding answers for a key, and that binding. -/
def owner? : Container → Key → Option (Container × Binding)
  | ⟨id, label, registry, parents, graph⟩, k =>
    match graph.origin? k with
    | none => none
    | some .own => (registry.lookup k).map fun b => (⟨id, label, registry, parents, graph⟩, b)
    | some (.parent index) => ownerAmong? parents index k

/-- The owner of a key as one of several containers sees it. -/
def ownerAmong? : List Container → Nat → Key → Option (Container × Binding)
  | [], _, _ => none
  | p :: _, 0, k => p.owner? k
  | _ :: ps, index + 1, k => ownerAmong? ps index k

end

mutual

/-- Those met so far, and before them a container and its ancestors, unless they were met already. -/
def meet : Container → List Container → List Container
  | ⟨id, label, registry, parents, graph⟩, met =>
    if met.any (·.id == id) then met else meetAll parents (⟨id, label, registry, parents, graph⟩ :: met)

def meetAll : List Container → List Container → List Container
  | [], met => met
  | p :: ps, met => meetAll ps (p.meet met)

end

/-- Containers and all their ancestors, each once however many ways lead there. -/
def lineage (cs : List Container) : List Container := meetAll cs []

def ownWeight (c : Container) : Nat := c.registry.bindings.foldr (fun b weight => b.weight + weight) 0

/-- The most bindings that can be under construction at once while a key of the container is resolved. -/
def weight (c : Container) : Nat := (lineage [c]).foldr (fun d weight => d.ownWeight + weight) 0

/-- The ancestor that a path of parent numbers leads to. -/
def ancestor? (c : Container) : List Nat → Option Container
  | [] => some c
  | i :: path => (c.parents[i]?).bind (ancestor? · path)

def lookup (c : Container) (k : Key) : Option Binding := (c.owner? k).map Prod.snd

/-- The keys of the own bindings that a place is kept for. -/
def keptKeys (c : Container) : List Key := (c.registry.bindings.filter (·.isKept)).map (·.key)

theorem ownerAmong?_eq (parents : List Container) (index : Nat) (k : Key) :
    ownerAmong? parents index k = (parents[index]?).bind (·.owner? k) := by
  induction parents generalizing index with
  | nil => simp [ownerAmong?]
  | cons p ps ih => cases index <;> simp [ownerAmong?, ih]

theorem sublist_meetAll (cs met : List Container) : met.Sublist (meetAll cs met) := by
  refine (meet.mutual_induct (fun c met => met.Sublist (c.meet met)) (fun cs met => met.Sublist (meetAll cs met))
    ?old ?new ?none ?more).2 cs met
  case old =>
    intro id label registry parents graph met old
    simp [meet, old]
  case new =>
    intro id label registry parents graph met new ih
    rw [meet, if_neg new]
    exact (List.sublist_cons_self _ _).trans ih
  case none => exact List.Sublist.refl
  case more => exact fun _ _ _ first rest => first.trans rest

theorem id_mem_meet (c : Container) (met : List Container) : c.id ∈ (c.meet met).map (·.id) := by
  obtain ⟨id, label, registry, parents, graph⟩ := c
  rw [meet]
  split
  next old =>
    obtain ⟨c, hc, same⟩ := List.any_eq_true.1 old
    exact List.mem_map.2 ⟨c, hc, beq_iff_eq.1 same⟩
  next => exact List.mem_map_of_mem ((sublist_meetAll parents _).subset List.mem_cons_self)

theorem id_mem_lineage {c : Container} {cs : List Container} (h : c ∈ cs) : c.id ∈ (lineage cs).map (·.id) := by
  suffices ∀ met, c.id ∈ (meetAll cs met).map (·.id) from this []
  induction cs with
  | nil => nomatch h
  | cons p ps ih =>
    intro met
    rcases List.mem_cons.1 h with rfl | h
    · exact ((sublist_meetAll ps _).map _).subset (id_mem_meet c met)
    · exact ih h (p.meet met)

theorem nodup_meetAll (cs met : List Container) (h : (met.map (·.id)).Nodup) :
    ((meetAll cs met).map (·.id)).Nodup := by
  refine (meet.mutual_induct
    (fun c met => (met.map (·.id)).Nodup → ((c.meet met).map (·.id)).Nodup)
    (fun cs met => (met.map (·.id)).Nodup → ((meetAll cs met).map (·.id)).Nodup)
    ?old ?new ?none ?more).2 cs met h
  case old =>
    intro id label registry parents graph met old h
    simpa [meet, old] using h
  case new =>
    intro id label registry parents graph met new ih h
    rw [meet, if_neg new]
    refine ih (List.nodup_cons.2 ⟨fun member => new ?_, h⟩)
    obtain ⟨c, hc, same⟩ := List.mem_map.1 member
    exact List.any_eq_true.2 ⟨c, hc, beq_iff_eq.2 same⟩
  case none => exact fun _ h => h
  case more => exact fun _ _ _ first rest h => rest (first h)

theorem nodup_lineage (cs : List Container) : ((lineage cs).map (·.id)).Nodup := nodup_meetAll cs [] List.nodup_nil

end Container

end Injection
