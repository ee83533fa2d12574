import Injection.Key
import Injection.Text.Quoted

/-!
What can go wrong, by cause, each with its one wording. A failed request carries the keys whose providers passed the
failure on, outermost first, and what it comes down to in the end. Registering, linking and building have causes of
their own; a provider sees the failure of a build only as text.
-/

namespace Injection

/-- What a failed request comes down to. -/
inductive Reason
  | missing (key : Key)
  /-- The key was asked for while it was being constructed. -/
  | cyclic (key : Key)
  /-- The container of a lazy handle is gone. -/
  | dropped (key : Key)
  /-- The value under a key is not of the key's type. -/
  | mismatch (required actual : TypeInfo)
  | build (message : String)
  | other (message : String)
  deriving DecidableEq, Repr

namespace Reason

def message : Reason → String
  | missing k => "No binding for '" ++ k.text ++ "' in this container or any parent"
  | cyclic k => "'" ++ k.text ++ "' was required while it was being constructed by a resolution depending on it"
  | dropped k => "The container providing '" ++ k.text ++ "' has been dropped"
  | mismatch required actual =>
    "Failed to downcast, required: '" ++ required.name ++ "' actual: '" ++ actual.name ++ "'"
  | build message => message
  | other message => message

end Reason

/-- A failed request: the providers that failed one inside the other, outermost first, and the reason. -/
structure Failure where
  trail : List Key
  reason : Reason
  deriving DecidableEq, Repr

namespace Failure

def because (reason : Reason) : Failure := ⟨[], reason⟩

/-- The failure of the provider that passed this one on. -/
def through (f : Failure) (key : Key) : Failure := { f with trail := key :: f.trail }

/-- Each provider on the trail adds its own words before those of the reason. -/
def message (f : Failure) : String :=
  f.trail.foldr (fun k text => "Provider for '" ++ k.text ++ "' failed - error: " ++ text) f.reason.message

end Failure

/-- Why a binding was not taken. -/
inductive RegistryError
  /-- Its key is taken, and it neither overrides nor gives way. -/
  | duplicate (key : Key)
  deriving DecidableEq, Repr

namespace RegistryError

def message : RegistryError → String
  | duplicate k =>
    "A binding for '" ++ k.text ++ "' is already registered - use DuplicatePolicy::Override to replace it"

end RegistryError

/-- What is wrong with a graph of bindings. -/
inductive LinkError
  /-- A needed key has no binding; the binding that needs it, unless the key itself was asked for. -/
  | missing (dependency : Key) (requiredBy : Option Key)
  /-- A key is needed for its own construction; the chain starts and ends with it. -/
  | cycle (source target : Key) (chain : List Key)
  /-- Several containers bring a binding for the key and none of them wins. -/
  | conflict (key : Key) (containers : List String)
  deriving DecidableEq, Repr

namespace LinkError

def message : LinkError → String
  | missing dependency (some k) => "'" ++ k.text ++ "' needs '" ++ dependency.text ++ "' but it is missing"
  | missing dependency none => "'" ++ dependency.text ++ "' has no binding"
  | cycle source target chain =>
    "A Circular Dependency exists between '" ++ source.text ++ "' and '" ++ target.text ++ "' through "
      ++ " -> ".intercalate (chain.map Key.text) ++ " - Consider using \x60Lazy\x60"
  | conflict k containers =>
    "'" ++ k.text ++ "' is bound by sibling parents " ++ Text.quotedList containers
      ++ " and none of them overrides the others"

def messages (errors : List LinkError) : String :=
  "\n".intercalate ("The dependency graph had one or more errors:" :: errors.map fun e => "- " ++ e.message)

end LinkError

/-- Why a container was not built. -/
inductive BuildError
  | registry (error : RegistryError)
  | link (errors : List LinkError)
  /-- While all scoped bindings were constructed, the provider of one failed. -/
  | provider (product : Key) (cause : Failure)
  /-- While all scoped bindings were constructed, a request failed before any provider did. -/
  | request (failure : Failure)
  deriving DecidableEq, Repr

namespace BuildError

def message : BuildError → String
  | registry e => e.message
  | link es => LinkError.messages es
  | provider product cause => "Factory for '" ++ product.text ++ "' failed - error: " ++ cause.message
  | request f => f.message

/-- The outermost provider of a failed construction becomes the product that could not be made. -/
def ofFailure (f : Failure) : BuildError :=
  match f.trail with
  | [] => request f
  | k :: ks => provider k ⟨ks, f.reason⟩

end BuildError

/-- Why a config was not taken, or not found. -/
inductive ConfigError
  /-- There is a config of its type already. -/
  | duplicate (type : TypeInfo)
  /-- What is filed under the type is not of the type. -/
  | mismatch (type : TypeInfo)
  deriving DecidableEq, Repr

namespace ConfigError

def message : ConfigError → String
  | duplicate type => "A config of type '" ++ type.name ++ "' is already registered"
  | mismatch type => "The config stored for '" ++ type.name ++ "' has a different type"

end ConfigError

end Injection
