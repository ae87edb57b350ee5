import ProjectManagement.Library.Expiry
import Mathlib.Algebra.Order.Ring.Rat
import Mathlib.Data.Rat.Cast.Defs

/-! The in-process cache. Every operation that needs the time reads the monotonic clock, in seconds. -/

namespace ProjectManagement

/-- The dictionary behind the cache: a value and the time it expires at, if any. -/
abbrev InMemoryCache := String → Option (String × Option ℚ)

namespace InMemoryCache

def get (now : ℚ) (key : String) (store : InMemoryCache) : Option String × InMemoryCache :=
  match store key with
  | none => (none, store)
  | some (value, none) => (some value, store)
  | some (value, some expiresAt) =>
    if now > expiresAt then (none, Function.update store key none) else (some value, store)

/-- `time.monotonic() + ttl_seconds if ttl_seconds else None`: a zero counts as no lifetime at all. -/
def expiresAt (now : ℚ) : Option ℤ → Option ℚ
  | some ttlSeconds => if ttlSeconds = 0 then none else some (now + ttlSeconds)
  | none => none

def set (now : ℚ) (key value : String) (ttlSeconds : Option ℤ) (store : InMemoryCache) : InMemoryCache :=
  Function.update store key (some (value, expiresAt now ttlSeconds))

def delete (key : String) (store : InMemoryCache) : InMemoryCache := Function.update store key none

def clear : InMemoryCache := fun _ => none

end InMemoryCache

/-- The operations of the cache; the last argument of `set` is `ttl_seconds`. -/
abbrev CacheOp := Library.Access String String (Option ℤ)

def InMemoryCache.perform (now : ℚ) (store : InMemoryCache) : CacheOp → InMemoryCache
  | .get key => (InMemoryCache.get now key store).2
  | .set key value ttlSeconds => InMemoryCache.set now key value ttlSeconds store
  | .delete key => InMemoryCache.delete key store
  | .clear => InMemoryCache.clear

/-- The cache after some operations, each with the time it was called at, oldest first. -/
def InMemoryCache.run (history : List (ℚ × CacheOp)) : InMemoryCache :=
  history.foldl (fun store e => InMemoryCache.perform e.1 store e.2) InMemoryCache.clear

end ProjectManagement
