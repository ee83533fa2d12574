import Injection.Value

/-!
What can be asked of a container, and what comes back. A resolver is a typed request that also says which dependency it
stands for, so that a provider may declare what it is going to ask for. The other requests declare nothing.
-/

namespace Injection

/-- A typed request. -/
inductive Resolver
  /-- The value under a key, which has to be of the key's type. -/
  | value (key : Key)
  /-- A handle that looks the type up later. -/
  | deferred (type : TypeInfo)
  /-- The config of a type, from the configs in sight. -/
  | config (type : TypeInfo)
  /-- The same, or nothing where the inner request finds nothing bound. -/
  | optional (inner : Resolver)
  deriving DecidableEq, Repr

namespace Resolver

/-- The dependency that a provider declares for the request. -/
def dependency : Resolver → Dependency
  | value key => .required key
  | deferred type => .deferred (.ofType type)
  | config _ => .required .configs
  | optional inner => inner.dependency.optional

end Resolver

/-- Anything that can be asked. -/
inductive Request
  | resolve (resolver : Resolver)
  | untyped (key : Key)
  /-- Who is asking, and where. -/
  | requester
  deriving DecidableEq, Repr

/-- What a request brings. -/
inductive Resolved
  | value (value : Value)
  | deferred (handle : Lazy)
  | requester (label : String) (key : Option Key)
  | absent
  | present (inner : Resolved)
  deriving DecidableEq, Repr

namespace Resolved

def note : Resolved → Note
  | value v => .value v.reference
  | deferred _ => .deferred
  | requester label key => .requester label key
  | absent => .absent
  | present inner => .present inner.note

def value? : Resolved → Option Value
  | value v => some v
  | present inner => inner.value?
  | _ => none

def lazy? : Resolved → Option Lazy
  | deferred handle => some handle
  | present inner => inner.lazy?
  | _ => none

end Resolved

end Injection
