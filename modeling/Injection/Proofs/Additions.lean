import Injection.Resolution
import Mathlib.Data.List.Nodup

/-!
The configs of a provider's run. A step that succeeds adds at most one config to the set of the run, and no request does.
So a set of configs that a recipe makes holds one config for each step that adds one, in the order of the steps; and as a
second one of a type is refused, such steps are all for different types.
-/

namespace Injection

open Attempt

namespace Configs

def types (s : Configs) : List TypeInfo := s.entries.map (·.type)

variable {s : Configs} {config : Config}

theorem find?_eq_none_iff (s : Configs) (type : TypeInfo) : s.find? type = none ↔ type ∉ s.types := by
  simp [find?, types]

theorem add_of_not_mem (config : Config) (h : config.type ∉ s.types) :
    s.add config = .ok ⟨s.entries ++ [config]⟩ := by
  rw [add, (s.find?_eq_none_iff config.type).2 h]

theorem types_of_add {t : Configs} (h : s.add config = .ok t) :
    config.type ∉ s.types ∧ t.types = s.types ++ [config.type] := by
  rw [add] at h
  rcases hfind : s.find? config.type with _ | held <;> rw [hfind] at h <;> cases h
  exact ⟨(s.find?_eq_none_iff config.type).1 hfind, by simp [types]⟩

theorem find?_isSome_of_mem (s : Configs) {type : TypeInfo} (h : type ∈ s.types) :
    (s.entries.find? (·.type = type)).isSome = true := by
  obtain ⟨config, hconfig, rfl⟩ := List.mem_map.1 h
  exact List.find?_isSome.2 ⟨config, hconfig, by simp⟩

end Configs

/-- The type of the config that a step adds. -/
def Step.added? : Step → Option TypeInfo
  | .addConfig type _ => some type
  | _ => none

/-- The types of the configs that steps add. -/
def Steps.added (steps : List Step) : List TypeInfo := steps.filterMap Step.added?

theorem Steps.added_cons (step : Step) (steps : List Step) :
    added (step :: steps) = step.added?.toList ++ added steps := by
  rw [added, added, List.filterMap_cons]
  cases step.added? <;> rfl

section

variable {ε α β : Type} {x : Attempt ε α} {me : Thread} {s t : Store}

theorem eval_of_bind_ok {f : α → Attempt ε β} {b : β} (h : (x >>= f).eval me s = (.ok b, t)) :
    ∃ a u, x.eval me s = (.ok a, u) ∧ (f a).eval me u = (.ok b, t) := by
  rw [eval_bind] at h
  rcases hx : x.eval me s with ⟨e | a, u⟩ <;> rw [hx] at h
  · cases h
  · exact ⟨a, u, rfl, h⟩

theorem eval_of_closing_ok {last : Action} {a : α} (h : (closing last x).eval me s = (.ok a, t)) :
    ∃ u, x.eval me s = (.ok a, u) ∧ last.after me u = t := by
  rw [eval_closing] at h
  obtain ⟨hresult, hstore⟩ := Prod.mk.inj h
  exact ⟨_, Prod.ext hresult rfl, hstore⟩

end

section Steps

variable {me : Thread} {s t : Store} {p p' : Progress} {require : Lookup} {h : Handle} {run : Nat}

/-- Requests add nothing. -/
theorem configs_of_pursue {catches : Bool} {request : Attempt Failure Resolved}
    (heval : (p.pursue catches request).eval me s = (.ok p', t)) : p'.configs = p.configs := by
  obtain ⟨result, u, -, hresult⟩ := eval_of_bind_ok heval
  cases result with
  | ok r =>
      cases hresult
      rfl
  | error f =>
      cases catches <;> cases hresult
      rfl

theorem configs_of_nest {drafts : List Draft} {eager : Bool} {r : Request} {catches : Bool}
    (heval : (h.nest require p drafts eager r catches).eval me s = (.ok p', t)) : p'.configs = p.configs := by
  obtain ⟨b, u, -, hbuild⟩ := eval_of_bind_ok heval
  obtain ⟨c, u, -, hheld⟩ := eval_of_bind_ok hbuild
  obtain ⟨_, u, -, hclosed⟩ := eval_of_bind_ok hheld
  obtain ⟨u, hinside, -⟩ := eval_of_closing_ok hclosed
  cases eager with
  | false => exact configs_of_pursue hinside
  | true =>
      obtain ⟨_, u, -, hpursue⟩ := eval_of_bind_ok hinside
      exact configs_of_pursue hpursue

theorem types_of_addConfig {type : TypeInfo} {tag : String}
    (heval : (p.addConfig type tag).eval me s = (.ok p', t)) :
    type ∉ p.configs.types ∧ p'.configs.types = p.configs.types ++ [type] := by
  obtain ⟨serial, u, -, hadd⟩ := eval_of_bind_ok heval
  rcases hset : p.configs.add ⟨type, serial, tag⟩ with e | configs <;> simp only [hset] at hadd
  · cases hadd
  · obtain ⟨_, v, -, hpure⟩ := eval_of_bind_ok hadd
    cases hpure
    exact Configs.types_of_add hset

/-- A config of a new type is taken in. -/
theorem eval_addConfig {type : TypeInfo} (hnew : type ∉ p.configs.types) (tag : String) :
    (p.addConfig type tag).eval me s =
      (.ok { p with configs := ⟨p.configs.entries ++ [⟨type, s.nextSerial.2, tag⟩]⟩ },
        s.nextSerial.1.tell ⟨.debug, "Added config " ++ type.name⟩) := by
  rw [Progress.addConfig, eval_bind, eval_nextSerial]
  simp only [Configs.add_of_not_mem ⟨type, s.nextSerial.2, tag⟩ hnew]
  rfl

/-- A step that succeeds adds its config, of a type that there was none of, and nothing else. -/
theorem types_of_step {step : Step} (heval : (step.perform require h run p).eval me s = (.ok p', t)) :
    (∀ type ∈ step.added?, type ∉ p.configs.types) ∧ p'.configs.types = p.configs.types ++ step.added?.toList := by
  have hsame (hnone : step.added? = none) (hconfigs : p'.configs = p.configs) :
      (∀ type ∈ step.added?, type ∉ p.configs.types) ∧
        p'.configs.types = p.configs.types ++ step.added?.toList := by
    simp [hnone, hconfigs]
  cases step with
  | fail message runs =>
      rw [Step.perform] at heval
      split at heval <;> cases heval
      exact hsame rfl rfl
  | panic message runs =>
      rw [Step.perform] at heval
      split at heval <;> cases heval
      exact hsame rfl rfl
  | pause =>
      cases heval
      exact hsame rfl rfl
  | meet gate count =>
      obtain ⟨_, u, -, hmeet⟩ := eval_of_bind_ok heval
      obtain ⟨_, v, -, hpure⟩ := eval_of_bind_ok hmeet
      cases hpure
      exact hsame rfl rfl
  | ask r path catches =>
      cases path with
      | none => exact hsame rfl (configs_of_pursue heval)
      | some path =>
          rw [Step.perform] at heval
          split at heval
          · cases heval
          · exact hsame rfl (configs_of_pursue heval)
  | use index catches =>
      rw [Step.perform] at heval
      split at heval
      · cases heval
      · exact hsame rfl (configs_of_pursue heval)
  | useInner value index catches =>
      obtain ⟨l, u, -, hpursue⟩ := eval_of_bind_ok heval
      exact hsame rfl (configs_of_pursue hpursue)
  | addConfig type tag =>
      obtain ⟨hnew, htypes⟩ := types_of_addConfig heval
      exact ⟨by simpa [Step.added?] using hnew, htypes⟩
  | nest drafts eager r catches => exact hsame rfl (configs_of_nest heval)

theorem Steps.not_mem_of_nodup {step : Step} {steps : List Step}
    (h : (p.configs.types ++ Steps.added (step :: steps)).Nodup) : ∀ type ∈ step.added?, type ∉ p.configs.types := by
  intro type htype hmem
  rw [Steps.added_cons] at h
  exact (List.nodup_append.1 h).2.2 type hmem type (List.mem_append_left _ (by simpa using htype)) rfl

/-- Steps that are still to come add other types after a step as well. -/
theorem nodup_of_step {step : Step} {steps : List Step} (hp : (p.configs.types ++ Steps.added (step :: steps)).Nodup)
    (heval : (step.perform require h run p).eval me s = (.ok p', t)) :
    (p'.configs.types ++ Steps.added steps).Nodup := by
  rw [(types_of_step heval).2, List.append_assoc, ← Steps.added_cons]
  exact hp

/-- After steps that succeeded, the set of the run holds one config for each that adds one, and they are of different
types if those before them were. -/
theorem types_of_steps {steps : List Step} (heval : (Steps.perform require h run p steps).eval me s = (.ok p', t)) :
    p'.configs.types = p.configs.types ++ Steps.added steps ∧ (p.configs.types.Nodup → p'.configs.types.Nodup) := by
  induction steps generalizing s p with
  | nil =>
      cases heval
      exact ⟨(List.append_nil _).symm, id⟩
  | cons step steps ih =>
      obtain ⟨q, u, hstep, hrest⟩ := eval_of_bind_ok heval
      obtain ⟨hnew, htypes⟩ := types_of_step hstep
      obtain ⟨hadded, hnodup⟩ := ih hrest
      refine ⟨by rw [hadded, htypes, Steps.added_cons, List.append_assoc], fun hp => hnodup ?_⟩
      rw [htypes]
      refine List.nodup_append'.2 ⟨hp, by cases step.added? <;> simp, ?_⟩
      rintro type hmem hadded
      exact hnew type (by simpa using hadded) hmem

end Steps

/-- The values that a recipe makes: sets with one config for each step that adds one, or values of another type. -/
def Recipe.Makes (r : Recipe Step) (v : Value) : Prop :=
  if r.makes = .configs then ∃ id, ∃ set : Configs, v = .configs id set.entries ∧ set.types = Steps.added r.steps
  else ∃ serial making, v = .made r.makes serial making

/-- A run that got through all its steps makes a value; at most it takes a number for it. -/
theorem exists_of_mint {p : Progress} {r : Recipe Step} (hp : p.configs.types = Steps.added r.steps) (o : Container)
    (k : Key) (serial : Nat) (me : Thread) (s : Store) :
    ∃ v t, (r.mint o k p serial).eval me s = (.ok v, t) ∧ r.Makes v ∧ (t = s ∨ t = s.nextIdentity.1) := by
  unfold Recipe.mint Recipe.Makes
  split
  · exact ⟨_, _, rfl, ⟨_, p.configs, rfl, hp⟩, .inr rfl⟩
  · exact ⟨_, _, rfl, ⟨_, _, rfl⟩, .inl rfl⟩

theorem Recipe.Makes.type {r : Recipe Step} {v : Value} (h : r.Makes v) : v.type = r.makes := by
  unfold Makes at h
  split at h
  · next hmakes =>
    obtain ⟨_, _, rfl, -⟩ := h
    exact hmakes.symm
  · obtain ⟨_, _, rfl⟩ := h
    rfl

end Injection
