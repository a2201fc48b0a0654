/-
  THE LRU INDEX OF THE DECISION CACHE (`insert_with_risk`, `evict_lru` of
  `vellaveto-engine/src/cache.rs`).

  PROGRAM.      Two maps are updated together: the entries by key, and the keys by the number of the access
                that wrote the entry.  An insert takes its number BEFORE it takes the lock, so that inserts
                of several tasks can store in another order than they counted.

  SPEC.         `Indexed`: a number and a key are listed exactly if the entry of the key has the number;
                numbers are listed once, in increasing order; there are not more entries than allowed.

  CORRECTNESS.
    1. `Indexed.store`          one insert, with a number that is not listed;
    2. `run_numbered`           every interleaving of the tasks, as long as the counter does not come round;
    3. `evictLru_least`         an eviction removes the entry with the least number;
    4. `counter_comes_round`    with 2^64 + 1 inserts a number is given out twice, and the index loses an
                                entry.
-/
import Vellaveto.Engine.CacheInvalidation

namespace Vellaveto.Cache

open Vellaveto.Lib

/-! ### The two maps -/

section Maps

variable {K V : Type} [DecidableEq K] {cache : DecisionCache K V}

/-- **The representation invariant.** -/
structure Indexed (cache : DecisionCache K V) : Prop where
  sorted : KeySorted cache.lruIndex
  mem_iff : ∀ n key, (n, key) ∈ cache.lruIndex ↔
    ∃ entry, cache.entries.lookup key = some entry ∧ entry.lastAccessed = n
  bounded : cache.entries.keys.length ≤ cache.maxEntries

/-- The index in the middle of an insert, when it lists every key but the one that is written. -/
structure IndexedBut (key : K) (cache : DecisionCache K V) : Prop where
  sorted : KeySorted cache.lruIndex
  mem_iff : ∀ n k, (n, k) ∈ cache.lruIndex ↔
    k ≠ key ∧ ∃ entry, cache.entries.lookup k = some entry ∧ entry.lastAccessed = n

omit [DecidableEq K] in
/-- A number is listed once. -/
theorem eq_of_mem_index {n : Nat} {k k' : K} (h : KeySorted cache.lruIndex)
    (hk : (n, k) ∈ cache.lruIndex) (hk' : (n, k') ∈ cache.lruIndex) : k = k' := by
  have hpair := List.inj_on_of_nodup_map h.nodup_keys hk hk' rfl
  exact congrArg Prod.snd hpair

theorem Indexed.forgetAccess (h : Indexed cache) (key : K) : IndexedBut key (cache.forgetAccess key) := by
  unfold DecisionCache.forgetAccess
  cases hlookup : cache.entries.lookup key with
  | none =>
    refine ⟨h.sorted, fun n k => ?_⟩
    rw [h.mem_iff]
    constructor
    · rintro ⟨entry, hentry, hn⟩
      refine ⟨?_, entry, hentry, hn⟩
      rintro rfl
      rw [hlookup] at hentry
      cases hentry
    · exact fun hk => hk.2
  | some old =>
    refine ⟨h.sorted.filter _, fun n k => ?_⟩
    have hold : (old.lastAccessed, key) ∈ cache.lruIndex := (h.mem_iff _ _).mpr ⟨old, hlookup, rfl⟩
    simp only [List.mem_filter, decide_eq_true_eq]
    rw [h.mem_iff]
    constructor
    · rintro ⟨⟨entry, hentry, rfl⟩, hne⟩
      refine ⟨?_, entry, hentry, rfl⟩
      rintro rfl
      rw [hlookup] at hentry
      cases hentry
      exact hne rfl
    · rintro ⟨hne, entry, hentry, rfl⟩
      refine ⟨⟨entry, hentry, rfl⟩, fun heq => ?_⟩
      have hmem : (old.lastAccessed, k) ∈ cache.lruIndex := (h.mem_iff _ _).mpr ⟨entry, hentry, heq⟩
      exact hne (eq_of_mem_index h.sorted hmem hold)

/-- The first pair of the index is the least. -/
theorem evictLru_eq_cons {n : Nat} {k : K} {rest : List (Nat × K)} (h : cache.lruIndex = (n, k) :: rest) :
    cache.evictLru.lruIndex = rest ∧ cache.evictLru.entries = cache.entries.erase k ∧
      cache.evictLru.maxEntries = cache.maxEntries := by
  unfold DecisionCache.evictLru
  rw [h]
  exact ⟨rfl, rfl, rfl⟩

theorem IndexedBut.evictLru {key : K} (h : IndexedBut key cache) : IndexedBut key cache.evictLru := by
  cases hindex : cache.lruIndex with
  | nil =>
    have hsame : cache.evictLru = cache := by
      unfold DecisionCache.evictLru
      rw [hindex]
    rw [hsame]
    exact h
  | cons first rest =>
    obtain ⟨least, victim⟩ := first
    obtain ⟨hrest, hentries, -⟩ := evictLru_eq_cons hindex
    have hsorted := h.sorted
    rw [hindex] at hsorted
    obtain ⟨hleast, htail⟩ := List.pairwise_cons.mp hsorted
    refine ⟨hrest ▸ htail, fun n k => ?_⟩
    rw [hrest, hentries, lookup_erase_eq]
    have hmem := h.mem_iff n k
    rw [hindex, List.mem_cons] at hmem
    constructor
    · intro hin
      obtain ⟨hne, entry, hentry, hn⟩ := hmem.mp (.inr hin)
      refine ⟨hne, entry, ?_, hn⟩
      rw [if_neg ?_, hentry]
      -- the entry of the victim has the least number, which is not listed again
      rintro rfl
      obtain ⟨-, entry', hentry', hn'⟩ := (h.mem_iff least k).mp (by rw [hindex]; exact List.mem_cons_self)
      cases hentry.symm.trans hentry'
      have hlt : least < n := hleast (n, k) hin
      omega
    · rintro ⟨hne, entry, hentry, hn⟩
      split at hentry
      · cases hentry
      · rename_i hvictim
        rcases hmem.mpr ⟨hne, entry, hentry, hn⟩ with heq | hin
        · cases heq
          exact absurd rfl hvictim
        · exact hin

/-- **An eviction removes the entry with the least number.** -/
theorem evictLru_least (h : Indexed cache) (hne : cache.entries ≠ ∅) :
    ∃ victim entry, cache.entries.lookup victim = some entry ∧
      (∀ key other, cache.entries.lookup key = some other → entry.lastAccessed ≤ other.lastAccessed) ∧
      cache.evictLru.entries = cache.entries.erase victim := by
  cases hindex : cache.lruIndex with
  | nil =>
    exfalso
    refine hne (AList.ext ?_)
    cases hlist : cache.entries.entries with
    | nil => rfl
    | cons e es =>
      obtain ⟨key, entry⟩ := e
      have hlookup : cache.entries.lookup key = some entry := by
        rw [← mem_entries_iff, hlist]
        exact List.mem_cons_self
      have hmem := (h.mem_iff entry.lastAccessed key).mpr ⟨entry, hlookup, rfl⟩
      rw [hindex] at hmem
      cases hmem
  | cons first rest =>
    obtain ⟨least, victim⟩ := first
    obtain ⟨entry, hentry, hnumber⟩ :=
      (h.mem_iff least victim).mp (by rw [hindex]; exact List.mem_cons_self)
    refine ⟨victim, entry, hentry, ?_, (evictLru_eq_cons hindex).2.1⟩
    intro key other hother
    have hmem := (h.mem_iff other.lastAccessed key).mpr ⟨other, hother, rfl⟩
    have hsorted := h.sorted
    rw [hindex] at hmem hsorted
    rcases List.mem_cons.mp hmem with heq | hin
    · rw [hnumber]
      exact (congrArg Prod.fst heq).ge
    · rw [hnumber]
      exact ((List.pairwise_cons.mp hsorted).1 _ hin).le

/-- Writing the entry, and listing it under a number that is not listed. -/
theorem IndexedBut.mem_insert {key : K} (h : IndexedBut key cache) (entry : CacheEntry V)
    (hnew : ∀ k, (entry.lastAccessed, k) ∉ cache.lruIndex) (n : Nat) (k : K) :
    (n, k) ∈ insertKey entry.lastAccessed key cache.lruIndex ↔
      ∃ e, (cache.entries.insert key entry).lookup k = some e ∧ e.lastAccessed = n := by
  have hfresh : ∀ e ∈ cache.lruIndex, e.1 ≠ entry.lastAccessed := by
    rintro ⟨m, k'⟩ hin rfl
    exact hnew k' hin
  rw [(perm_insertKey key hfresh).mem_iff, List.mem_cons, h.mem_iff, lookup_insert_eq]
  by_cases hk : k = key
  · subst hk
    rw [if_pos rfl]
    constructor
    · rintro (heq | ⟨hne, -⟩)
      · exact ⟨entry, rfl, (congrArg Prod.fst heq).symm⟩
      · exact absurd rfl hne
    · rintro ⟨e, he, rfl⟩
      cases he
      exact .inl rfl
  · rw [if_neg hk]
    constructor
    · rintro (heq | ⟨-, he⟩)
      · exact absurd (congrArg Prod.snd heq) hk
      · exact he
    · exact fun he => .inr ⟨hk, he⟩

/-- A table that is full has an entry to evict, and then there is room. -/
theorem length_evictLru_lt (h : Indexed cache) (hpos : 1 ≤ cache.maxEntries)
    (hfull : cache.maxEntries ≤ cache.entries.keys.length) :
    cache.evictLru.entries.keys.length < cache.maxEntries := by
  have hne : cache.entries ≠ ∅ := by
    intro hempty
    rw [hempty, AList.keys_empty, List.length_nil] at hfull
    omega
  obtain ⟨victim, entry, hentry, -, herase⟩ := evictLru_least h hne
  have hmem : victim ∈ cache.entries.keys := by
    rw [← AList.mem_keys, ← AList.lookup_isSome, hentry]
    rfl
  have hlen := List.length_erase_of_mem hmem
  have hbound := h.bounded
  rw [herase, AList.keys_erase, hlen]
  omega

/-- What a store leaves alone. -/
theorem maxEntries_store (key : K) (v : V) (gen : UInt64) (access now : Nat) :
    (cache.store key v gen access now).maxEntries = cache.maxEntries ∧
      (cache.store key v gen access now).accessCounter = cache.accessCounter := by
  have hforget : (cache.forgetAccess key).maxEntries = cache.maxEntries ∧
      (cache.forgetAccess key).accessCounter = cache.accessCounter := by
    unfold DecisionCache.forgetAccess
    split
    · exact ⟨rfl, rfl⟩
    · exact ⟨rfl, rfl⟩
  have hevict : ∀ c : DecisionCache K V, c.evictLru.maxEntries = c.maxEntries ∧
      c.evictLru.accessCounter = c.accessCounter := by
    intro c
    unfold DecisionCache.evictLru
    split
    · exact ⟨rfl, rfl⟩
    · exact ⟨rfl, rfl⟩
  unfold DecisionCache.store
  split
  · exact ⟨rfl, rfl⟩
  · dsimp only
    split
    · exact ⟨(hevict _).1.trans hforget.1, (hevict _).2.trans hforget.2⟩
    · exact hforget

theorem forgetAccess_of_notMem {key : K} (hkey : key ∉ cache.entries) : cache.forgetAccess key = cache := by
  unfold DecisionCache.forgetAccess
  rw [AList.lookup_eq_none.mpr hkey]

/-- Writing an entry adds one key at most, and none if the key is there. -/
theorem length_keys_insert (t : AList fun _ : K => CacheEntry V) (key : K) (entry : CacheEntry V) :
    (t.insert key entry).keys.length ≤ t.keys.length + 1 ∧
      (key ∈ t → (t.insert key entry).keys.length = t.keys.length) := by
  rw [AList.keys_insert, List.length_cons]
  refine ⟨Nat.succ_le_succ (List.length_erase_le), fun hkey => ?_⟩
  have hmem : key ∈ t.keys := AList.mem_keys.mp hkey
  have hpos : 0 < t.keys.length := List.length_pos_of_mem hmem
  rw [List.length_erase_of_mem hmem]
  omega

/-- **One insert**, with a number that is not listed. -/
theorem Indexed.store (h : Indexed cache) (hpos : 1 ≤ cache.maxEntries) {access : Nat}
    (hnew : ∀ k, (access, k) ∉ cache.lruIndex) (key : K) (v : V) (gen : UInt64) (now : Nat) :
    Indexed (cache.store key v gen access now) := by
  have hmax := (@maxEntries_store K V _ cache key v gen access now).1
  unfold DecisionCache.store at hmax ⊢
  split
  · exact h
  rename_i hlive
  rw [if_neg hlive] at hmax
  dsimp only at hmax ⊢
  by_cases hroom : (cache.forgetAccess key).maxEntries ≤ (cache.forgetAccess key).entries.keys.length ∧
      key ∉ (cache.forgetAccess key).entries
  · -- the key is new, so nothing was forgotten, and the least entry goes
    have hkey : key ∉ cache.entries := by
      rw [← (@entries_forgetAccess K V _ cache key).1]
      exact hroom.2
    have hforget := forgetAccess_of_notMem hkey
    rw [if_pos hroom] at hmax ⊢
    rw [hforget] at hroom hmax ⊢
    have hbut : IndexedBut key cache := hforget ▸ h.forgetAccess key
    have hlisted : ∀ k, (access, k) ∉ cache.evictLru.lruIndex := by
      intro k hin
      obtain ⟨-, entry, hentry, hn⟩ := (hbut.evictLru.mem_iff access k).mp hin
      exact hnew k ((h.mem_iff access k).mpr ⟨entry, entries_evictLru hentry, hn⟩)
    refine ⟨hbut.evictLru.sorted.insertKey _ _, ?_, ?_⟩
    · exact hbut.evictLru.mem_insert ⟨v, now, gen, access⟩ hlisted
    · have hlen := (length_keys_insert cache.evictLru.entries key ⟨v, now, gen, access⟩).1
      have hlt := length_evictLru_lt h hpos hroom.1
      show (cache.evictLru.entries.insert key _).keys.length ≤ cache.evictLru.maxEntries
      have hmax' : cache.evictLru.maxEntries = cache.maxEntries := hmax
      omega
  · have hbut := h.forgetAccess key
    have hentries := (@entries_forgetAccess K V _ cache key).1
    rw [if_neg hroom] at hmax ⊢
    have hlisted : ∀ k, (access, k) ∉ (cache.forgetAccess key).lruIndex := by
      intro k hin
      obtain ⟨-, entry, hentry, hn⟩ := (hbut.mem_iff access k).mp hin
      rw [hentries] at hentry
      exact hnew k ((h.mem_iff access k).mpr ⟨entry, hentry, hn⟩)
    refine ⟨hbut.sorted.insertKey _ _, ?_, ?_⟩
    · exact hbut.mem_insert ⟨v, now, gen, access⟩ hlisted
    · have hlen := length_keys_insert (cache.forgetAccess key).entries key ⟨v, now, gen, access⟩
      have hmax' : (cache.forgetAccess key).maxEntries = cache.maxEntries := hmax
      have hbound := h.bounded
      rw [hmax', not_and_or, Nat.not_le, not_not, hentries] at hroom
      show ((cache.forgetAccess key).entries.insert key _).keys.length ≤
        (cache.forgetAccess key).maxEntries
      rw [hmax', hentries]
      rw [hentries] at hlen
      rcases hroom with hlt | hkey
      · exact hlen.1.trans hlt
      · rw [hlen.2 hkey]
        exact hbound

end Maps

/-! ### Runs -/

section Runs

variable {P H V : Type} [DecidableEq H] {env : Env P H V} {s s' : System P (CacheKey H) V} {taken : Nat}

/-- The step takes an access number. -/
def Step.takesNumber : Step P → Bool
  | .takeAccess _ => true
  | _ => false

/-- **The invariant of a run** in which `taken` numbers were taken.  A task that has taken a number has it
    for itself until it stores. -/
structure System.Numbered (taken : Nat) (s : System P (CacheKey H) V) : Prop where
  indexed : Indexed s.cache
  positive : 1 ≤ s.cache.maxEntries
  counter : s.cache.accessCounter = taken % 2 ^ 64
  listed : ∀ n key, (n, key) ∈ s.cache.lruIndex → n < taken
  held : ∀ task key v gen n, s.tasks task = .numbered key v gen n →
    n < taken ∧ ∀ k, (n, k) ∉ s.cache.lruIndex
  distinct : ∀ task task' key key' v v' gen gen' n, s.tasks task = .numbered key v gen n →
    s.tasks task' = .numbered key' v' gen' n → task = task'

/-- The phases without a number. -/
def Phase.Unnumbered {K : Type} (phase : Phase K V) : Prop := ∀ key v gen n, phase ≠ .numbered key v gen n

theorem setTask_eq_numbered {K : Type} {s : System P K V} {task t : Nat} {phase : Phase K V}
    (hphase : phase.Unnumbered) {key : K} {v : Evaluated V} {gen : UInt64} {n : Nat}
    (h : (s.setTask task phase).tasks t = .numbered key v gen n) :
    t ≠ task ∧ s.tasks t = .numbered key v gen n := by
  have hupdate : Function.update s.tasks task phase t = .numbered key v gen n := h
  by_cases ht : t = task
  · subst ht
    rw [Function.update_self] at hupdate
    exact absurd hupdate (hphase key v gen n)
  · rw [Function.update_of_ne ht] at hupdate
    exact ⟨ht, hupdate⟩

theorem System.Numbered.setTask (h : s.Numbered taken) {task : Nat} {phase : Phase (CacheKey H) V}
    (hphase : phase.Unnumbered) : (s.setTask task phase).Numbered taken where
  indexed := h.indexed
  positive := h.positive
  counter := h.counter
  listed := h.listed
  held t key v gen n ht := h.held t key v gen n (setTask_eq_numbered hphase ht).2
  distinct t t' key key' v v' gen gen' n ht ht' :=
    h.distinct t t' key key' v v' gen gen' n (setTask_eq_numbered hphase ht).2
      (setTask_eq_numbered hphase ht').2

/-- The two maps, the bound and the counter are all that matters of a cache. -/
theorem System.Numbered.setCache (h : s.Numbered taken)
    {cache : DecisionCache (CacheKey H) (Evaluated V)} (hentries : cache.entries = s.cache.entries)
    (hindex : cache.lruIndex = s.cache.lruIndex) (hmax : cache.maxEntries = s.cache.maxEntries)
    (hcounter : cache.accessCounter = s.cache.accessCounter) :
    System.Numbered taken { s with cache := cache } where
  indexed := ⟨hindex ▸ h.indexed.sorted, by rw [hindex, hentries]; exact h.indexed.mem_iff,
    by rw [hentries, hmax]; exact h.indexed.bounded⟩
  positive := hmax ▸ h.positive
  counter := hcounter.trans h.counter
  listed := by rw [hindex]; exact h.listed
  held := by rw [hindex]; exact h.held
  distinct := h.distinct

/-- A lookup leaves everything but the counters of the statistics. -/
theorem numbered_lookup (h : s.Numbered taken) (key : CacheKey H) (gen : UInt64) (now : Nat) :
    System.Numbered taken { s with cache := (s.cache.lookup key gen now).2 } := by
  unfold DecisionCache.lookup
  split
  · exact h.setCache rfl rfl rfl rfl
  · split
    · split
      · exact h.setCache rfl rfl rfl rfl
      · exact h.setCache rfl rfl rfl rfl
    · exact h.setCache rfl rfl rfl rfl

/-- The counter has not come round, so its number is new. -/
theorem System.Numbered.takeAccess (h : s.Numbered taken) (htaken : taken < 2 ^ 64) {task : Nat}
    (key : CacheKey H) (v : Evaluated V) (gen : UInt64) :
    System.Numbered (taken + 1)
      { s.setTask task (.numbered key v gen s.cache.accessCounter) with cache := s.cache.bumpAccess } := by
  have hcounter : s.cache.accessCounter = taken := h.counter.trans (Nat.mod_eq_of_lt htaken)
  have htasks : ∀ t key' v' gen' n,
      (s.setTask task (.numbered key v gen s.cache.accessCounter)).tasks t = .numbered key' v' gen' n →
      (t = task ∧ n = taken) ∨ (t ≠ task ∧ s.tasks t = .numbered key' v' gen' n) := by
    intro t key' v' gen' n ht
    have hupdate : Function.update s.tasks task (.numbered key v gen s.cache.accessCounter) t =
      .numbered key' v' gen' n := ht
    by_cases heq : t = task
    · subst heq
      rw [Function.update_self] at hupdate
      cases hupdate
      exact .inl ⟨rfl, hcounter⟩
    · rw [Function.update_of_ne heq] at hupdate
      exact .inr ⟨heq, hupdate⟩
  refine ⟨⟨h.indexed.sorted, h.indexed.mem_iff, h.indexed.bounded⟩, h.positive, ?_, ?_, ?_, ?_⟩
  · show (s.cache.accessCounter + 1) % 2 ^ 64 = (taken + 1) % 2 ^ 64
    rw [hcounter]
  · intro n k hin
    exact (h.listed n k hin).trans (Nat.lt_succ_self taken)
  · intro t key' v' gen' n ht
    rcases htasks t key' v' gen' n ht with ⟨-, rfl⟩ | ⟨-, hold⟩
    · exact ⟨Nat.lt_succ_self n, fun k hin => Nat.lt_irrefl n (h.listed n k hin)⟩
    · obtain ⟨hlt, hnot⟩ := h.held t key' v' gen' n hold
      exact ⟨hlt.trans (Nat.lt_succ_self taken), hnot⟩
  · intro t t' k k' w w' g g' n ht ht'
    rcases htasks t k w g n ht with ⟨rfl, rfl⟩ | ⟨-, hold⟩
    · rcases htasks t' k' w' g' n ht' with ⟨rfl, -⟩ | ⟨-, hold'⟩
      · rfl
      · exact absurd (h.held t' k' w' g' n hold').1 (Nat.lt_irrefl n)
    · rcases htasks t' k' w' g' n ht' with ⟨rfl, rfl⟩ | ⟨-, hold'⟩
      · exact absurd (h.held t k w g n hold).1 (Nat.lt_irrefl n)
      · exact h.distinct t t' k k' w w' g g' n hold hold'

/-- A task stores with its number. -/
theorem System.Numbered.store (h : s.Numbered taken) {task : Nat} {key : CacheKey H} {v : Evaluated V}
    {gen : UInt64} {access : Nat} (htask : s.tasks task = .numbered key v gen access) (now : Nat) :
    System.Numbered taken
      { s.setTask task .idle with cache := s.cache.store key v gen access now } := by
  obtain ⟨hlt, hnot⟩ := h.held task key v gen access htask
  have hstored := h.indexed.store h.positive hnot key v gen now
  obtain ⟨hmax, hcounter⟩ := @maxEntries_store (CacheKey H) (Evaluated V) _ s.cache key v gen access now
  -- a pair of the new index is the new one or was listed before
  have hlisted : ∀ n k, (n, k) ∈ (s.cache.store key v gen access now).lruIndex →
      n = access ∨ (n, k) ∈ s.cache.lruIndex := by
    intro n k hin
    obtain ⟨entry, hentry, hn⟩ := (hstored.mem_iff n k).mp hin
    rcases entries_store hentry with rfl | hold
    · exact .inl hn.symm
    · exact .inr ((h.indexed.mem_iff n k).mpr ⟨entry, hold, hn⟩)
  have hidle : (Phase.idle : Phase (CacheKey H) V).Unnumbered := fun _ _ _ _ hphase => nomatch hphase
  refine ⟨hstored, hmax ▸ h.positive, hcounter.trans h.counter, ?_, ?_, ?_⟩
  · intro n k hin
    rcases hlisted n k hin with rfl | hold
    · exact hlt
    · exact h.listed n k hold
  · intro t k w g n ht
    obtain ⟨hne, hold⟩ := setTask_eq_numbered hidle ht
    obtain ⟨hlt', hnot'⟩ := h.held t k w g n hold
    refine ⟨hlt', fun k' hin => ?_⟩
    rcases hlisted n k' hin with rfl | hlist
    · exact hne (h.distinct t task _ _ _ _ _ _ n hold htask)
    · exact hnot' k' hlist
  · intro t t' k k' w w' g g' n ht ht'
    exact h.distinct t t' k k' w w' g g' n (setTask_eq_numbered hidle ht).2
      (setTask_eq_numbered hidle ht').2

/-- The step lemma. -/
theorem step_numbered {a : Step P} (h : s.Numbered taken)
    (hroom : taken + (if a.takesNumber then 1 else 0) ≤ 2 ^ 64) (hstep : step env s a = some s') :
    s'.Numbered (taken + if a.takesNumber then 1 else 0) := by
  cases a with
  | evaluate task request =>
    simp only [step] at hstep
    split at hstep
    · cases hstep
      refine h.setTask ?_
      intro _ _ _ _ hphase
      cases hphase
    · cases hstep
  | loadGeneration task =>
    simp only [step] at hstep
    split at hstep
    · split at hstep
      · cases hstep
        refine h.setTask ?_
        intro _ _ _ _ hphase
        cases hphase
      · cases hstep
        refine h.setTask ?_
        intro _ _ _ _ hphase
        cases hphase
    · cases hstep
  | takeAccess task =>
    simp only [step] at hstep
    split at hstep
    · cases hstep
      exact h.takeAccess hroom _ _ _
    · cases hstep
  | store task now =>
    simp only [step] at hstep
    split at hstep
    · rename_i key v gen access htask
      cases hstep
      exact h.store htask now
    · cases hstep
  | changePolicies policies =>
    cases hstep
    have hcache := @System.Numbered.setCache P H V _ s taken h s.cache.invalidate rfl rfl rfl rfl
    exact ⟨hcache.indexed, hcache.positive, hcache.counter, hcache.listed, hcache.held, hcache.distinct⟩
  | getStart task request =>
    simp only [step] at hstep
    split at hstep
    · split at hstep
      · cases hstep
        refine h.setTask ?_
        intro _ _ _ _ hphase
        cases hphase
      · cases hstep
        exact h.setCache rfl rfl rfl rfl
    · cases hstep
  | getRead task now =>
    simp only [step] at hstep
    split at hstep
    · cases hstep
      have hidle : (s.setTask task .idle).Numbered taken := by
        refine h.setTask ?_
        intro _ _ _ _ hphase
        cases hphase
      exact numbered_lookup hidle _ _ now
    · cases hstep
  | poison =>
    cases hstep
    exact h.setCache rfl rfl rfl rfl

/-- **The run lemma.** -/
theorem run_numbered {calls : List (Step P)} (h : s.Numbered taken)
    (hroom : taken + calls.countP Step.takesNumber ≤ 2 ^ 64)
    (hrun : run (step env) s calls = some s') : s'.Numbered (taken + calls.countP Step.takesNumber) := by
  induction calls generalizing s taken with
  | nil =>
    cases hrun
    exact h
  | cons a calls ih =>
    obtain ⟨middle, hstep, hrest⟩ := run_cons_eq_some.mp hrun
    rw [List.countP_cons, Nat.add_comm (calls.countP _), ← Nat.add_assoc] at hroom ⊢
    refine ih (step_numbered h ?_ hstep) hroom hrest
    exact (Nat.le_add_right _ _).trans hroom

theorem initial_numbered (policies : P) (maxEntries ttl : Nat) :
    (System.initial policies maxEntries ttl : System P (CacheKey H) V).Numbered 0 where
  indexed := by
    refine ⟨List.Pairwise.nil, fun n key => ⟨fun hin => (nomatch hin), ?_⟩, Nat.zero_le _⟩
    rintro ⟨entry, hentry, -⟩
    rw [System.initial, DecisionCache.new, AList.lookup_empty] at hentry
    cases hentry
  positive := by
    show 1 ≤ min (max maxEntries 1) maxCacheEntries
    exact le_min (le_max_right _ _) (by decide)
  counter := rfl
  listed n key hin := nomatch hin
  held task key v gen n ht := nomatch ht
  distinct task task' key key' v v' gen gen' n ht := nomatch ht

/-- **The two maps of the cache**, after every run of the tasks that takes at most 2^64 access numbers:
    they list the same entries, there are not more of them than allowed, and an eviction removes the one
    with the least number. -/
theorem cache_maps_agree (env : Env P H V) (policies : P) (maxEntries ttl : Nat) (calls : List (Step P))
    (hcount : calls.countP Step.takesNumber ≤ 2 ^ 64)
    (hrun : run (step env) (System.initial policies maxEntries ttl) calls = some s) :
    Indexed s.cache ∧
      (s.cache.entries ≠ ∅ → ∃ victim entry, s.cache.entries.lookup victim = some entry ∧
        (∀ key other, s.cache.entries.lookup key = some other →
          entry.lastAccessed ≤ other.lastAccessed) ∧
        s.cache.evictLru.entries = s.cache.entries.erase victim) := by
  have hroom : 0 + calls.countP Step.takesNumber ≤ 2 ^ 64 := by omega
  have hindexed := (run_numbered (initial_numbered policies maxEntries ttl) hroom hrun).indexed
  exact ⟨hindexed, evictLru_least hindexed⟩

end Runs

/-! ### The counter comes round -/

section ComesRound

/-- A table with room takes the entry and keeps the others. -/
theorem entries_store_of_room {K V : Type} [DecidableEq K] {cache : DecisionCache K V} (key : K)
    (hlive : cache.poisoned = false) (hroom : cache.entries.keys.length < cache.maxEntries) (v : V)
    (gen : UInt64) (access now : Nat) :
    (cache.store key v gen access now).entries = cache.entries.insert key ⟨v, now, gen, access⟩ ∧
      (cache.store key v gen access now).poisoned = false := by
  have hentries := (@entries_forgetAccess K V _ cache key).1
  have hrest : (cache.forgetAccess key).maxEntries = cache.maxEntries ∧
      (cache.forgetAccess key).poisoned = cache.poisoned := by
    unfold DecisionCache.forgetAccess
    split
    · exact ⟨rfl, rfl⟩
    · exact ⟨rfl, rfl⟩
  unfold DecisionCache.store
  rw [if_neg (by rw [hlive]; decide)]
  dsimp only
  rw [if_neg (by rw [hentries, hrest.1]; omega), hentries, hrest.2]
  exact ⟨rfl, hlive⟩

/-- A request for a tool. -/
def toolRequest (tool : String) : Request := ⟨Action.new tool "run" .null, none, false⟩

/-- A task evaluates a request and inserts the verdict. -/
def insertSteps (tool : String) : List (Step (List Policy)) :=
  [.evaluate 0 (toolRequest tool), .loadGeneration 0, .takeAccess 0, .store 0 0]

/-- The key of a tool. -/
def toolKey (tool : String) : CacheKey (List HashPart) := (toolRequest tool).key plainEnv

/-- Two inserts into a table for one. -/
theorem cache_maps_agree_two :
    ∃ s, run (step plainEnv) (System.initial [] 1 60) (insertSteps "a" ++ insertSteps "b") = some s ∧
      s.cache.entries.keys = [toolKey "b"] ∧ Indexed s.cache := by
  refine ⟨_, rfl, by decide +kernel, ?_⟩
  exact (cache_maps_agree plainEnv [] 1 60 (insertSteps "a" ++ insertSteps "b") (by decide) rfl).1

variable {s s' : System (List Policy) (CacheKey (List HashPart)) (Except EngineError Verdict)}

theorem setTask_self {P K V : Type} (s : System P K V) (task : Nat) (phase : Phase K V) :
    (s.setTask task phase).tasks task = phase := by
  show Function.update s.tasks task phase task = phase
  rw [Function.update_self]

/-- One insert by a task that is idle. -/
theorem run_insertSteps (hidle : s.tasks 0 = .idle) (tool : String) :
    ∃ s' v gen, run (step plainEnv) s (insertSteps tool) = some s' ∧ s'.tasks 0 = .idle ∧
      s'.cache = s.cache.bumpAccess.store (toolKey tool) v gen s.cache.accessCounter 0 := by
  let v : Evaluated (Except EngineError Verdict) := ⟨plainEnv.evaluate s.policies (toolRequest tool), s.epoch⟩
  let s₁ := s.setTask 0 (.evaluated (toolRequest tool) v)
  let s₂ := s₁.setTask 0 (.stamped (toolKey tool) v s.cache.policyGeneration)
  let s₃ := { s₂.setTask 0 (.numbered (toolKey tool) v s.cache.policyGeneration s.cache.accessCounter) with
    cache := s.cache.bumpAccess }
  let s₄ := { s₃.setTask 0 .idle with
    cache := s.cache.bumpAccess.store (toolKey tool) v s.cache.policyGeneration s.cache.accessCounter 0 }
  have h₁ : step plainEnv s (.evaluate 0 (toolRequest tool)) = some s₁ := by
    simp only [step, hidle, s₁, v]
  have h₂ : step plainEnv s₁ (.loadGeneration 0) = some s₂ := by
    have htask : s₁.tasks 0 = .evaluated (toolRequest tool) v := setTask_self s 0 _
    simp only [step, htask]
    rfl
  have h₃ : step plainEnv s₂ (.takeAccess 0) = some s₃ := by
    have htask : s₂.tasks 0 = .stamped (toolKey tool) v s.cache.policyGeneration :=
      setTask_self s₁ 0 _
    simp only [step, htask]
    rfl
  have h₄ : step plainEnv s₃ (.store 0 0) = some s₄ := by
    have htask : s₃.tasks 0 =
        .numbered (toolKey tool) v s.cache.policyGeneration s.cache.accessCounter :=
      setTask_self s₂ 0 _
    simp only [step, htask]
    rfl
  refine ⟨s₄, v, s.cache.policyGeneration, ?_, setTask_self s₃ 0 _, rfl⟩
  rw [insertSteps, run, h₁]
  show run (step plainEnv) s₁ _ = _
  rw [run, h₂]
  show run (step plainEnv) s₂ _ = _
  rw [run, h₃]
  show run (step plainEnv) s₃ _ = _
  rw [run, h₄]
  rfl

/-- A first entry under number 0, and nothing but a second one beside it, after `n + 1` inserts into a
    table for three. -/
structure TwoEntries (n : Nat)
    (s : System (List Policy) (CacheKey (List HashPart)) (Except EngineError Verdict)) : Prop where
  idle : s.tasks 0 = .idle
  live : s.cache.poisoned = false
  max : s.cache.maxEntries = 3
  counter : s.cache.accessCounter = (n + 1) % 2 ^ 64
  first : ∃ entry, s.cache.entries.lookup (toolKey "a") = some entry ∧ entry.lastAccessed = 0
  keys : ∀ key ∈ s.cache.entries.keys, key = toolKey "a" ∨ key = toolKey "b"

theorem toolKey_ne : toolKey "a" ≠ toolKey "b" ∧ toolKey "a" ≠ toolKey "c" := by decide +kernel

theorem TwoEntries.room {n : Nat} (h : TwoEntries n s) :
    s.cache.entries.keys.length < s.cache.maxEntries := by
  have hsub : s.cache.entries.keys ⊆ [toolKey "a", toolKey "b"] := by
    intro key hkey
    rcases h.keys key hkey with rfl | rfl
    · exact List.mem_cons_self
    · exact List.mem_cons_of_mem _ List.mem_cons_self
  have hlen := (List.subperm_of_subset s.cache.entries.keys_nodup hsub).length_le
  rw [h.max]
  exact Nat.lt_succ_of_le hlen

/-- What one more insert does to the two entries. -/
theorem TwoEntries.insert {n : Nat} (h : TwoEntries n s) (tool : String) :
    ∃ s' entry, run (step plainEnv) s (insertSteps tool) = some s' ∧ s'.tasks 0 = .idle ∧
      s'.cache.poisoned = false ∧ s'.cache.maxEntries = 3 ∧
      s'.cache.accessCounter = (n + 2) % 2 ^ 64 ∧
      s'.cache.entries = s.cache.entries.insert (toolKey tool) entry ∧
      entry.lastAccessed = (n + 1) % 2 ^ 64 := by
  obtain ⟨s', v, gen, hrun, hidle, hcache⟩ := run_insertSteps h.idle tool
  have hroom : s.cache.bumpAccess.entries.keys.length < s.cache.bumpAccess.maxEntries := h.room
  have hlive : s.cache.bumpAccess.poisoned = false := h.live
  obtain ⟨hentries, hlive'⟩ := entries_store_of_room (toolKey tool) hlive hroom v gen s.cache.accessCounter 0
  obtain ⟨hmax, hcounter⟩ := @maxEntries_store _ _ _ s.cache.bumpAccess (toolKey tool) v gen
    s.cache.accessCounter 0
  refine ⟨s', ⟨v, 0, gen, s.cache.accessCounter⟩, hrun, hidle, ?_, ?_, ?_, ?_, h.counter⟩
  · rw [hcache]
    exact hlive'
  · rw [hcache, hmax]
    exact h.max
  · rw [hcache, hcounter]
    show (s.cache.accessCounter + 1) % 2 ^ 64 = _
    rw [h.counter]
    omega
  · rw [hcache]
    exact hentries

/-- Any number of inserts of the second tool. -/
theorem run_second (n : Nat) (h : TwoEntries 0 s) :
    ∃ s', run (step plainEnv) s (List.replicate n (insertSteps "b")).flatten = some s' ∧
      TwoEntries n s' := by
  induction n with
  | zero => exact ⟨s, rfl, h⟩
  | succ n ih =>
    obtain ⟨middle, hmiddle, htwo⟩ := ih
    obtain ⟨s', entry, hrun, hidle, hlive, hmax, hcounter, hentries, -⟩ := htwo.insert "b"
    refine ⟨s', ?_, hidle, hlive, hmax, hcounter, ?_, ?_⟩
    · rw [List.replicate_succ', List.flatten_append, List.flatten_singleton]
      exact run_append_eq_some.mpr ⟨middle, hmiddle, hrun⟩
    · rw [hentries, lookup_insert_eq, if_neg toolKey_ne.1]
      exact htwo.first
    · intro key hkey
      rw [hentries, AList.keys_insert, List.mem_cons] at hkey
      rcases hkey with rfl | hkey
      · exact .inr rfl
      · exact htwo.keys key (List.mem_of_mem_erase hkey)

/-- One tool is inserted once, another one 2^64 - 1 times, and then a third one. -/
def longRun : List (Step (List Policy)) :=
  insertSteps "a" ++ ((List.replicate (2 ^ 64 - 1) (insertSteps "b")).flatten ++ insertSteps "c")

/-- **The counter comes round**: the first and the third tool get the same number, and one of them is not
    listed. -/
theorem counter_comes_round :
    ∃ s, run (step plainEnv) (System.initial [] 3 60) longRun = some s ∧ ¬Indexed s.cache := by
  obtain ⟨s₁, v, gen, hfirst, hidle, hcache⟩ := @run_insertSteps (System.initial [] 3 60) rfl "a"
  have hentries : s₁.cache.entries = AList.insert (toolKey "a") ⟨v, 0, gen, 0⟩ ∅ := by
    rw [hcache]
    rfl
  have htwo : TwoEntries 0 s₁ := by
    refine ⟨hidle, by rw [hcache]; rfl, by rw [hcache]; rfl, by rw [hcache]; rfl, ?_, ?_⟩
    · refine ⟨⟨v, 0, gen, 0⟩, ?_, rfl⟩
      rw [hentries, AList.lookup_insert]
    · intro key hkey
      rw [hentries, AList.keys_insert, AList.keys_empty, List.erase_nil, List.mem_singleton] at hkey
      exact .inl hkey
  obtain ⟨s₂, hsecond, htwo'⟩ := run_second (2 ^ 64 - 1) htwo
  obtain ⟨s₃, entry, hthird, -, -, -, -, hentries', hnumber⟩ := htwo'.insert "c"
  refine ⟨s₃, ?_, ?_⟩
  · refine run_append_eq_some.mpr ⟨s₁, hfirst, ?_⟩
    exact run_append_eq_some.mpr ⟨s₂, hsecond, hthird⟩
  · intro hindexed
    obtain ⟨old, hold, hzero⟩ := htwo'.first
    have hround : entry.lastAccessed = 0 := hnumber.trans (by omega)
    have hc : (0, toolKey "c") ∈ s₃.cache.lruIndex := by
      refine (hindexed.mem_iff _ _).mpr ⟨entry, ?_, hround⟩
      rw [hentries', AList.lookup_insert]
    have ha : (0, toolKey "a") ∈ s₃.cache.lruIndex := by
      refine (hindexed.mem_iff _ _).mpr ⟨old, ?_, hzero⟩
      rw [hentries', lookup_insert_eq, if_neg toolKey_ne.2]
      exact hold
    exact toolKey_ne.2 (eq_of_mem_index hindexed.sorted ha hc)

end ComesRound

end Vellaveto.Cache
