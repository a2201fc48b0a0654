/-
  THE DECISION CACHE (`vellaveto-engine/src/cache.rs`): verdicts kept under a key of hashes.

    1. **Keys** — `isCacheableContext` says which requests may be cached, `buildKey` hashes what a request
       is told apart by.  The hasher is left open: `hash` maps what is fed into it to a digest.
    2. **The table** — `lookup` and `store` are what `get` and `insert` do under the lock.  Each gets the
       generation that was LOADED BEFORE the lock was taken; `invalidate` only bumps the counter.

  An instant is a number of nanoseconds; the access counter wraps at 2^64.
-/
import Mathlib.Data.List.Sort
import Mathlib.Data.String.Basic
import Vellaveto.Engine.ContextConditions
import Vellaveto.Lib.SortedMap
import Vellaveto.Lib.Table

namespace Vellaveto.Cache

open Vellaveto.Lib

/-! ### Keys -/

/-- One value that is fed into a hasher. -/
inductive HashPart where
  | byte (b : Nat)
  | length (n : Nat)
  | text (s : String)
  | optionalText (s : Option String)
deriving DecidableEq, Repr

/-- `CacheKey`, over the type of the digests. -/
structure CacheKey (H : Type) where
  toolHash : H
  functionHash : H
  pathsHash : H
  domainsHash : H
  resolvedIpsHash : H
  identityHash : H
  parametersHash : H
deriving DecidableEq, Repr

/-- `EvaluationContext` with the tenant, which only the cache reads. -/
structure CacheContext extends ConditionContext where
  tenantId : Option String

/-- `is_cacheable_context`. -/
def isCacheableContext (context : Option CacheContext) (hasRiskScore : Bool) : Bool :=
  if hasRiskScore then false
  else
    match context with
    | none => true
    | some ctx =>
      ctx.timestamp.isNone && ctx.callCounts.keys.isEmpty && ctx.previousActions.isEmpty &&
        ctx.callChainDepth == 0 && ctx.capabilityToken.isNone && ctx.sessionState.isNone &&
        ctx.verificationTier.isNone

section Key

variable {H : Type} (ext : Externals) (hash : List HashPart → H)

/-- A sorted list of texts, after its length. -/
def sortedParts (strs : List String) : List HashPart :=
  .length strs.length :: (strs.insertionSort (· ≤ ·)).map .text

/-- `hash_sorted_strs`. -/
def hashSortedStrs (strs : List String) : H := hash (sortedParts strs)

/-- `hash_sorted_normalized_strs`. -/
def hashSortedNormalizedStrs (strs : List String) : H := hash (sortedParts (strs.map ext.normalizeFull))

/-- `hash_parameters`; the text of a `Value` is always written. -/
def hashParameters (params : Json) : H := hash [.text (ext.jsonText params)]

/-- What is hashed of an agent identity. -/
def identityParts (identity : AgentIdentity) : List HashPart :=
  let claimKeys := identity.claims.keys.insertionSort (· ≤ ·)
  [.optionalText identity.issuer, .optionalText identity.subject, .length identity.audience.length] ++
    identity.audience.map .text ++ .length claimKeys.length ::
    claimKeys.flatMap fun key =>
      .text key :: (identity.claims.lookup key).toList.map fun v => .text (ext.jsonText v)

/-- `hash_identity`. -/
def hashIdentity (context : Option CacheContext) : H :=
  hash <|
    match context with
    | none => [.byte 0]
    | some ctx =>
      .byte 1 :: .optionalText ctx.agentId :: .optionalText ctx.tenantId ::
        match ctx.agentIdentity with
        | some identity => .byte 2 :: identityParts ext identity
        | none => [.byte 3]

/-- `build_key`. -/
def buildKey (action : Action) (context : Option CacheContext) : CacheKey H where
  toolHash := hash [.text (ext.normalizeFull action.tool)]
  functionHash := hash [.text (ext.normalizeFull action.function)]
  pathsHash := hashSortedNormalizedStrs ext hash action.targetPaths
  domainsHash := hashSortedNormalizedStrs ext hash action.targetDomains
  resolvedIpsHash := hashSortedStrs hash action.resolvedIps
  identityHash := hashIdentity ext hash context
  parametersHash := hashParameters ext hash action.parameters

end Key

/-! ### The table -/

/-- `MAX_CACHE_ENTRIES`, `MIN_TTL_SECS`, `MAX_TTL_SECS`. -/
def maxCacheEntries : Nat := 100000
def minTtlSecs : Nat := 1
def maxTtlSecs : Nat := 3600

/-- Nanoseconds of a second. -/
def nanos : Nat := 1000000000

/-- `CacheEntry`. -/
structure CacheEntry (V : Type) where
  verdict : V
  insertedAt : Nat
  generation : UInt64
  lastAccessed : Nat
deriving DecidableEq, Repr

/-- `CacheStats`. -/
structure CacheStats where
  hits : UInt64
  misses : UInt64
  evictions : UInt64
  insertions : UInt64
  invalidations : UInt64
deriving DecidableEq, Repr

/-- `DecisionCache`, with the inside of its lock; `lruIndex` is sorted by access counter. -/
structure DecisionCache (K V : Type) where
  entries : AList fun _ : K => CacheEntry V
  lruIndex : List (Nat × K)
  poisoned : Bool
  maxEntries : Nat
  ttl : Nat
  policyGeneration : UInt64
  stats : CacheStats
  accessCounter : Nat

namespace DecisionCache

variable {K V : Type} [DecidableEq K] (cache : DecisionCache K V)

/-- `DecisionCache::new`; `ttl` is in seconds. -/
def new (K V : Type) (maxEntries ttl : Nat) : DecisionCache K V where
  entries := ∅
  lruIndex := []
  poisoned := false
  maxEntries := min (max maxEntries 1) maxCacheEntries
  ttl := min (max ttl minTtlSecs) maxTtlSecs * nanos
  policyGeneration := 0
  stats := ⟨0, 0, 0, 0, 0⟩
  accessCounter := 0

/-- A miss is counted. -/
def miss : DecisionCache K V :=
  { cache with stats := { cache.stats with misses := cache.stats.misses + 1 } }

/-- A hit is counted. -/
def hit : DecisionCache K V :=
  { cache with stats := { cache.stats with hits := cache.stats.hits + 1 } }

/-- `get_with_risk` under the lock: the entry, if it is of this generation and young enough. -/
def lookup (key : K) (currentGen : UInt64) (now : Nat) : Option V × DecisionCache K V :=
  if cache.poisoned then (none, cache.miss)
  else
    match cache.entries.lookup key with
    | some entry =>
      if entry.generation = currentGen ∧ now - entry.insertedAt < cache.ttl then
        (some entry.verdict, cache.hit)
      else (none, cache.miss)
    | none => (none, cache.miss)

/-- `evict_lru`. -/
def evictLru : DecisionCache K V :=
  match cache.lruIndex with
  | [] => cache
  | (_, evictedKey) :: rest =>
    { cache with
      lruIndex := rest
      entries := cache.entries.erase evictedKey
      stats := { cache.stats with evictions := cache.stats.evictions + 1 } }

/-- `fetch_add` on the access counter. -/
def bumpAccess : DecisionCache K V := 
  { cache with accessCounter := (cache.accessCounter + 1) % 2 ^ 64 }

/-- The LRU index without the old position of a key. -/
def forgetAccess (key : K) : DecisionCache K V :=
  match cache.entries.lookup key with
  | some old => { cache with lruIndex := cache.lruIndex.filter fun p => p.1 ≠ old.lastAccessed }
  | none => cache

/-- `insert_with_risk` under the lock. -/
def store (key : K) (verdict : V) (currentGen : UInt64) (accessOrder now : Nat) : DecisionCache K V :=
  if cache.poisoned then cache
  else
    let forgotten := cache.forgetAccess key
    let evicted :=
      if forgotten.maxEntries ≤ forgotten.entries.keys.length ∧ key ∉ forgotten.entries then
        forgotten.evictLru
      else forgotten
    { evicted with
      lruIndex := insertKey accessOrder key evicted.lruIndex
      entries := evicted.entries.insert key ⟨verdict, now, currentGen, accessOrder⟩
      stats := { evicted.stats with insertions := evicted.stats.insertions + 1 } }

/-- `invalidate`. -/
def invalidate : DecisionCache K V :=
  { cache with
    policyGeneration := cache.policyGeneration + 1
    stats := { cache.stats with invalidations := cache.stats.invalidations + 1 } }

/-- A thread panicked under the write lock. -/
def poison : DecisionCache K V := { cache with poisoned := true }

end DecisionCache

/-! ### What the operations do to the table -/

section Operations

variable {K V : Type} [DecidableEq K] {cache : DecisionCache K V}

/-- A hit is an entry of the generation that was asked for. -/
theorem lookup_eq_some {key : K} {gen : UInt64} {now : Nat} {v : V}
    (h : (cache.lookup key gen now).1 = some v) :
    ∃ entry, cache.entries.lookup key = some entry ∧ entry.generation = gen ∧
      now - entry.insertedAt < cache.ttl ∧ entry.verdict = v := by
  rw [DecisionCache.lookup] at h
  split at h
  · cases h
  · split at h
    · rename_i entry hentry
      split at h
      · rename_i hfresh
        exact ⟨entry, hentry, hfresh.1, hfresh.2, Option.some.inj h⟩
      · cases h
    · cases h

/-- A lookup changes only the counters. -/
theorem entries_lookup (key : K) (gen : UInt64) (now : Nat) :
    (cache.lookup key gen now).2.entries = cache.entries ∧
      (cache.lookup key gen now).2.policyGeneration = cache.policyGeneration := by
  rw [DecisionCache.lookup]
  split
  · exact ⟨rfl, rfl⟩
  · split
    · split
      · exact ⟨rfl, rfl⟩
      · exact ⟨rfl, rfl⟩
    · exact ⟨rfl, rfl⟩

theorem entries_forgetAccess (key : K) :
    (cache.forgetAccess key).entries = cache.entries ∧
      (cache.forgetAccess key).policyGeneration = cache.policyGeneration := by
  rw [DecisionCache.forgetAccess]
  split
  · exact ⟨rfl, rfl⟩
  · exact ⟨rfl, rfl⟩

/-- Eviction only removes entries. -/
theorem entries_evictLru {key : K} {entry : CacheEntry V}
    (h : cache.evictLru.entries.lookup key = some entry) : cache.entries.lookup key = some entry := by
  rw [DecisionCache.evictLru] at h
  split at h
  · exact h
  · rw [lookup_erase_eq] at h
    split at h
    · cases h
    · exact h

theorem policyGeneration_evictLru : cache.evictLru.policyGeneration = cache.policyGeneration := by
  rw [DecisionCache.evictLru]
  split
  · rfl
  · rfl

/-- **What a store can do**: an entry of the table after it is the new one, under its key, or was there
    before. -/
theorem lookup_store {key key' : K} {v : V} {gen : UInt64} {access now : Nat} {entry : CacheEntry V}
    (h : (cache.store key v gen access now).entries.lookup key' = some entry) :
    (key' = key ∧ entry = ⟨v, now, gen, access⟩) ∨ cache.entries.lookup key' = some entry := by
  rw [DecisionCache.store] at h
  split at h
  · exact .inr h
  rw [lookup_insert_eq] at h
  split at h
  · rename_i hkey
    exact .inl ⟨hkey, (Option.some.inj h).symm⟩
  right
  split at h
  · have hold := entries_evictLru h
    rwa [(entries_forgetAccess key).1] at hold
  · rwa [(entries_forgetAccess key).1] at h

theorem entries_store {key key' : K} {v : V} {gen : UInt64} {access now : Nat} {entry : CacheEntry V}
    (h : (cache.store key v gen access now).entries.lookup key' = some entry) :
    entry = ⟨v, now, gen, access⟩ ∨ cache.entries.lookup key' = some entry :=
  (lookup_store h).imp_left And.right

theorem policyGeneration_store (key : K) (v : V) (gen : UInt64) (access now : Nat) :
    (cache.store key v gen access now).policyGeneration = cache.policyGeneration := by
  rw [DecisionCache.store]
  split
  · rfl
  · dsimp only
    split
    · exact policyGeneration_evictLru.trans (entries_forgetAccess key).2
    · exact (entries_forgetAccess key).2

end Operations

end Vellaveto.Cache
