import TorchInference.TtlCacheRefinement

/-!
# The states of the response cache

Calls of the cache may overlap, and each section of theirs that touches the map
or the insertion counter is atomic.  Whatever the sections do, two entries have
different insertion orders until the counter wraps around.
-/

namespace TorchInference

open TransitionRuns

namespace Cache

variable {Value : Type}

/-- The states of a cache under calls that may overlap.  `sets` is the number of
insertion orders fetched so far, and `orders` are those of writes that have yet
to insert. -/
inductive Reached (maxSize : Nat) : Nat → List UInt64 → Cache Value → Prop
  | new : Reached maxSize 0 [] (Cache.new maxSize)
  | fetchOrder {sets : Nat} {orders : List UInt64} {cache : Cache Value}
      (before : Reached maxSize sets orders cache) :
      Reached maxSize (sets + 1) (cache.insertionCounter :: orders)
        { cache with insertionCounter := cache.insertionCounter + 1 }
  | insert {sets : Nat} {orders : List UInt64} {cache : Cache Value}
      (before : Reached maxSize sets orders cache) {order : UInt64}
      (fetched : order ∈ orders) (key : String) (value : Value)
      (ttl now : UInt64) :
      Reached maxSize sets (orders.erase order)
        { cache with
          data := cache.data.insert key ⟨value, now, ttl, now, 0, order⟩ }
  | access {sets : Nat} {orders : List UInt64} {cache : Cache Value}
      (before : Reached maxSize sets orders cache) {key : String}
      {entry : CacheEntry Value}
      (isEntry : cache.data.lookup key = some entry) (now : UInt64) :
      Reached maxSize sets orders
        { cache with
          data := cache.data.insert key
            { entry with
              lastAccess := now
              accessCount := entry.accessCount + 1 } }
  | erase {sets : Nat} {orders : List UInt64} {cache : Cache Value}
      (before : Reached maxSize sets orders cache) (key : String) :
      Reached maxSize sets orders { cache with data := cache.data.erase key }
  | clear {sets : Nat} {orders : List UInt64} {cache : Cache Value}
      (before : Reached maxSize sets orders cache) :
      Reached maxSize sets orders cache.clear
  /-- The other counters. -/
  | count {sets : Nat} {orders : List UInt64} {cache : Cache Value}
      (before : Reached maxSize sets orders cache)
      (hits misses evictions evictionSamples : UInt64) :
      Reached maxSize sets orders
        { cache with
          hits := hits
          misses := misses
          evictions := evictions
          evictionSamples := evictionSamples }

namespace Reached

variable {maxSize sets : Nat} {orders : List UInt64} {cache : Cache Value}

/-! ## Calls that do not overlap -/

theorem get (reached : Reached maxSize sets orders cache) (key : String)
    (now : UInt64) : Reached maxSize sets orders (cache.get key now).2 := by
  unfold Cache.get
  cases looked : cache.data.lookup key with
  | none => exact reached.count _ _ _ _
  | some entry =>
      simp only
      split
      · exact (reached.erase key).count _ _ _ _
      · exact (reached.access looked now).count _ _ _ _

theorem evictLru (reached : Reached maxSize sets orders cache)
    (choice : EvictionChoice) :
    Reached maxSize sets orders (cache.evictLru choice) := by
  unfold Cache.evictLru
  simp only
  split
  · split
    · exact (reached.erase _).count _ _ _ _
    · exact reached.count _ _ _ _
  · split
    · exact (reached.erase _).count _ _ _ _
    · exact reached.count _ _ _ _

theorem set (reached : Reached maxSize sets [] cache) (key : String)
    (value : Value) (ttl : UInt64) (choice : EvictionChoice) (now : UInt64) :
    Reached maxSize (sets + 1) [] (cache.set key value ttl choice now) := by
  have room : Reached maxSize sets [] (cache.makeRoom key choice) := by
    unfold Cache.makeRoom
    split
    · exact reached.evictLru choice
    · exact reached
  have written := room.fetchOrder.insert List.mem_cons_self key value ttl now
  rwa [List.erase_cons_head] at written

theorem cleanupExpired (reached : Reached maxSize sets orders cache)
    (order : List String) (now : UInt64) :
    Reached maxSize sets orders (cache.cleanupExpired order now) := by
  unfold Cache.cleanupExpired
  generalize cache.expired order now = keys
  induction keys generalizing cache with
  | nil => exact reached
  | cons key keys ih => exact ih (reached.erase key)

/-! ## Insertion orders -/

/-- The insertion order of a key's entry. -/
def orderOf (cache : Cache Value) (key : String) : Option UInt64 :=
  (cache.data.lookup key).map CacheEntry.insertionOrder

/-- The insertion orders that are about are those of different writes. -/
structure OrdersApart (sets : Nat) (orders : List UInt64)
    (cache : Cache Value) : Prop where
  counter : cache.insertionCounter = UInt64.ofNat sets
  earlier : ∀ order ∈ orders, order.toNat < sets
  nodup : orders.Nodup
  inserted : ∀ key order, orderOf cache key = some order →
    order.toNat < sets ∧ order ∉ orders
  unique : ∀ key other order, orderOf cache key = some order →
    orderOf cache other = some order → key = other

variable {next : Cache Value}

/-- They stay so when entries disappear. -/
theorem OrdersApart.of_fewer (apart : OrdersApart sets orders cache)
    (counter : next.insertionCounter = cache.insertionCounter)
    (fewer : ∀ key order, orderOf next key = some order →
      orderOf cache key = some order) : OrdersApart sets orders next where
  counter := counter.trans apart.counter
  earlier := apart.earlier
  nodup := apart.nodup
  inserted key order isOrder := apart.inserted key order (fewer key order isOrder)
  unique key other order isOrder isOrder' :=
    apart.unique key other order (fewer key order isOrder)
      (fewer other order isOrder')

theorem orderOf_insert (key other : String) (entry : CacheEntry Value) :
    orderOf { cache with data := cache.data.insert key entry } other =
      if other = key then some entry.insertionOrder
      else orderOf cache other := by
  unfold orderOf
  split_ifs with same
  · rw [same]
    simp only [AList.lookup_insert, Option.map_some]
  · simp only [AList.lookup_insert_ne same]

theorem orderOf_erase {key other : String} {order : UInt64}
    (isOrder : orderOf { cache with data := cache.data.erase key } other =
      some order) : orderOf cache other = some order := by
  unfold orderOf at isOrder ⊢
  by_cases same : other = key
  · subst same
    simp only [AList.lookup_erase, Option.map_none, reduceCtorEq] at isOrder
  · simpa only [AList.lookup_erase_ne same] using isOrder

theorem OrdersApart.fetchOrder (apart : OrdersApart sets orders cache)
    (few : sets < 2 ^ 64) :
    OrdersApart (sets + 1) (cache.insertionCounter :: orders)
      { cache with insertionCounter := cache.insertionCounter + 1 } := by
  have toNat : cache.insertionCounter.toNat = sets := by
    rw [apart.counter]
    exact UInt64.toNat_ofNat_of_lt few
  have fresh : ∀ order : UInt64, order.toNat < sets →
      order ≠ cache.insertionCounter := by
    rintro order earlier rfl
    omega
  refine ⟨?_, ?_, ?_, ?_, apart.unique⟩
  · simp only [apart.counter, UInt64.ofNat_add]
    rfl
  · intro order mem
    rcases List.mem_cons.mp mem with rfl | mem
    · omega
    · exact Nat.lt_succ_of_lt (apart.earlier order mem)
  · exact List.nodup_cons.mpr
      ⟨fun mem => fresh _ (apart.earlier _ mem) rfl, apart.nodup⟩
  · intro key order isOrder
    obtain ⟨earlier, absent⟩ := apart.inserted key order isOrder
    exact ⟨Nat.lt_succ_of_lt earlier,
      fun mem => (List.mem_cons.mp mem).elim (fresh order earlier) absent⟩

theorem OrdersApart.insert (apart : OrdersApart sets orders cache)
    {order : UInt64} (fetched : order ∈ orders) (key : String)
    {entry : CacheEntry Value} (same : entry.insertionOrder = order) :
    OrdersApart sets (orders.erase order)
      { cache with data := cache.data.insert key entry } := by
  subst same
  have unfetched : ∀ other ∈ orders.erase entry.insertionOrder,
      other ∈ orders := fun _ mem => List.mem_of_mem_erase mem
  refine ⟨apart.counter, fun other mem => apart.earlier other
    (unfetched other mem), apart.nodup.erase _, ?_, ?_⟩
  · intro other order isOrder
    rw [orderOf_insert] at isOrder
    split_ifs at isOrder
    · obtain rfl := Option.some.inj isOrder
      exact ⟨apart.earlier _ fetched,
        fun mem => (apart.nodup.mem_erase_iff.mp mem).1 rfl⟩
    · obtain ⟨earlier, absent⟩ := apart.inserted other order isOrder
      exact ⟨earlier, fun mem => absent (unfetched order mem)⟩
  · intro first second order isOrder isOrder'
    rw [orderOf_insert] at isOrder isOrder'
    split_ifs at isOrder isOrder' with isKey isKey' isKey'
    · rw [isKey, isKey']
    · rw [← isOrder] at isOrder'
      exact absurd fetched (apart.inserted second _ isOrder').2
    · rw [← isOrder'] at isOrder
      exact absurd fetched (apart.inserted first _ isOrder).2
    · exact apart.unique first second order isOrder isOrder'

/-- Until the counter wraps around, no two entries have one insertion order. -/
theorem ordersApart (reached : Reached maxSize sets orders cache)
    (few : sets ≤ 2 ^ 64) : OrdersApart sets orders cache := by
  induction reached with
  | new =>
      refine ⟨rfl, ?_, List.nodup_nil, ?_, ?_⟩
      · simp
      · simp [orderOf, Cache.new]
      · simp [orderOf, Cache.new]
  | fetchOrder _ ih => exact (ih (by omega)).fetchOrder (by omega)
  | insert _ fetched key value ttl now ih => exact (ih few).insert fetched key rfl
  | @access sets orders cache _ key entry isEntry now ih =>
      refine (ih few).of_fewer rfl fun other order isOrder => ?_
      rw [orderOf_insert] at isOrder
      split_ifs at isOrder with same
      · rw [orderOf, same, isEntry]
        exact isOrder
      · exact isOrder
  | erase _ key ih => exact (ih few).of_fewer rfl fun _ _ => orderOf_erase
  | clear _ ih =>
      refine (ih few).of_fewer rfl fun _ _ isOrder => ?_
      simp [orderOf, Cache.clear] at isOrder
  | count _ hits misses evictions evictionSamples ih =>
      exact (ih few).of_fewer rfl fun _ _ isOrder => isOrder

end Reached

end Cache

namespace CacheHistory

variable {Value : Type} {maxSize sets : Nat} {history next : CacheHistory Value}

/-- The insertion orders that a call fetches. -/
def fetches : CacheAction Value → Nat
  | .set _ _ _ _ _ => 1
  | _ => 0

theorem reached_step {action : CacheAction Value}
    (reached : Cache.Reached maxSize sets [] history.cache)
    (steps : history.step action = some next) :
    Cache.Reached maxSize (sets + fetches action) [] next.cache := by
  cases action with
  | set key value ttl choice now =>
      simp only [step] at steps
      split_ifs at steps
      obtain rfl := Option.some.inj steps
      exact reached.set key value ttl choice now
  | get key now =>
      simp only [step] at steps
      split_ifs at steps
      obtain rfl := Option.some.inj steps
      exact reached.get key now
  | remove key =>
      obtain rfl := Option.some.inj steps
      exact reached.erase key
  | clear =>
      obtain rfl := Option.some.inj steps
      exact reached.clear
  | cleanupExpired order now =>
      simp only [step] at steps
      split_ifs at steps
      obtain rfl := Option.some.inj steps
      exact reached.cleanupExpired order now

/-- Calls that do not overlap reach such states. -/
theorem reached_run {actions : List (CacheAction Value)}
    (reached : Cache.Reached maxSize sets [] history.cache)
    (runs : run step history actions = some next) :
    Cache.Reached maxSize (sets + (actions.map fetches).sum) [] next.cache := by
  induction actions generalizing sets history with
  | nil =>
      obtain rfl := Option.some.inj runs
      exact reached
  | cons action actions ih =>
      obtain ⟨middle, steps, rest⟩ := run_cons_eq_some runs
      have after := ih (reached_step reached steps) rest
      rwa [Nat.add_assoc, ← List.sum_cons, ← List.map_cons] at after

end CacheHistory

end TorchInference
