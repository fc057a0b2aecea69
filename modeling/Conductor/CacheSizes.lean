/-
`LruCache.stats`, and what it says about the capacity.

The hit rate is exported so that the capacity can be tuned on data. That is sound for this
cache: whatever is asked of it, loaders that raise included, a cache with more room lists
what one with less room lists, in the same order of use. So a lookup that hits in the
smaller one hits in the larger one, and the hit rate never falls with the capacity.

The counters are looked at in the methods themselves: only a lookup writes them, and one
that hits counts as a hit even where the loader of another would have raised. What the two
caches list is compared in the reference model, which both refine.

The hit rate is the exact quotient here, which the source rounds to a float.
-/
import Mathlib.Algebra.Order.Field.Rat
import Mathlib.Tactic.Positivity
import Conductor.Lib.Recency
import Conductor.LruSpec

set_option autoImplicit false

open Relational Recency

namespace Conductor

namespace LruCache

variable {K V E : Type}

/-! ## Statistics -/

/-- What `stats` returns. -/
structure Stats where
  hits : ℕ
  misses : ℕ
  size : ℕ
  capacity : ℤ
  hit_rate : ℚ
deriving DecidableEq

/-- Hit rate, so that the capacity can be tuned on data. -/
def stats (c : LruCache K V) : Stats :=
  let total := c._hits + c._misses
  { hits := c._hits
    misses := c._misses
    size := c._nodes.rows.length
    capacity := c._capacity
    hit_rate := if total ≠ 0 then c._hits / total else 0 }

/-- Of as many lookups, the one with more hits has the higher rate. -/
theorem hit_rate_mono {c c' : LruCache K V} (hhits : c._hits ≤ c'._hits)
    (htotal : c._hits + c._misses = c'._hits + c'._misses) :
    c.stats.hit_rate ≤ c'.stats.hit_rate := by
  unfold stats
  dsimp only
  rw [htotal]
  split
  · have hhits' : (c._hits : ℚ) ≤ c'._hits := Nat.cast_le.mpr hhits
    gcongr
  · exact le_refl _

/-! ## Counters -/

/-- The two counters of a cache. -/
def counters (c : LruCache K V) : ℕ × ℕ := (c._hits, c._misses)

/-- A method that does not count, whatever it returns or raises. -/
def Uncounted {α : Type} (m : Method K V E α) : Prop :=
  ∀ c : LruCache K V, (call m c).2.counters = c.counters

section Uncounted

variable {α β : Type}

theorem uncounted_pure (a : α) : Uncounted (pure a : Method K V E α) := fun _ => rfl

theorem uncounted_throw (e : CacheError E) : Uncounted (throw e : Method K V E α) := fun _ => rfl

theorem uncounted_get : Uncounted (MonadState.get : Method K V E (LruCache K V)) := fun _ => rfl

theorem uncounted_modify {g : LruCache K V → LruCache K V}
    (h : ∀ c, (g c).counters = c.counters) : Uncounted (modify g : Method K V E PUnit) := h

/-- Two steps of a method that count nothing. -/
theorem Uncounted.bind {m : Method K V E α} {f : α → Method K V E β} (hm : Uncounted m)
    (hf : ∀ a, Uncounted (f a)) : Uncounted (m >>= f) := by
  intro c
  cases hcall : call m c with
  | mk result c' =>
      have hkept : c'.counters = c.counters := by rw [← hm c, hcall]
      cases result with
      | ok a => rw [call_bind hcall, hf a c', hkept]
      | error e => rw [call_bind_error hcall, hkept]

/-- A reply is wrapped without counting. -/
theorem counters_bind_pure (m : Method K V E α) (f : α → β) (c : LruCache K V) :
    (call (m >>= fun a => pure (f a)) c).2.counters = (call m c).2.counters := by
  cases hcall : call m c with
  | mk result c' =>
      cases result with
      | ok a => rw [call_bind hcall, call_pure]
      | error e => rw [call_bind_error hcall]

theorem uncounted_assertSome (x : Option α) : Uncounted (assertSome x : Method K V E α) := by
  cases x with
  | none => exact uncounted_throw _
  | some a => exact uncounted_pure a

theorem uncounted_object (x : Option α) : Uncounted (object x : Method K V E α) := by
  cases x with
  | none => exact uncounted_throw _
  | some a => exact uncounted_pure a

theorem uncounted_push_front (n : ℕ) : Uncounted (push_front n : Method K V E Unit) := by
  unfold push_front
  refine uncounted_get.bind (fun c => (uncounted_assertSome _).bind (fun first => ?_))
  refine Uncounted.bind (uncounted_modify fun _ => rfl) (fun _ => ?_)
  refine Uncounted.bind (uncounted_modify fun _ => rfl) (fun _ => ?_)
  exact Uncounted.bind (uncounted_modify fun _ => rfl) (fun _ => uncounted_modify fun _ => rfl)

theorem uncounted_unlink (n : ℕ) : Uncounted (unlink n : Method K V E Unit) := by
  unfold unlink
  refine uncounted_get.bind (fun c => (uncounted_assertSome _).bind (fun _ => ?_))
  refine (uncounted_assertSome _).bind (fun _ => (uncounted_object _).bind (fun before => ?_))
  refine Uncounted.bind (uncounted_modify fun _ => rfl) (fun _ => uncounted_get.bind (fun c => ?_))
  refine (uncounted_object _).bind (fun after => ?_)
  refine Uncounted.bind (uncounted_modify fun _ => rfl) (fun _ => ?_)
  exact Uncounted.bind (uncounted_modify fun _ => rfl) (fun _ => uncounted_modify fun _ => rfl)

theorem uncounted_move_to_front (n : ℕ) : Uncounted (move_to_front n : Method K V E Unit) := by
  unfold move_to_front
  refine uncounted_get.bind (fun c => ?_)
  split
  · exact uncounted_pure ()
  · exact (uncounted_unlink n).bind (fun _ => uncounted_push_front n)

/-- What a lookup does with the node it found. -/
theorem uncounted_used (n : ℕ) : Uncounted (do
    move_to_front n
    let c ← MonadState.get
    return c.value n : Method K V E (Option V)) :=
  (uncounted_move_to_front n).bind (fun _ => uncounted_get.bind (fun _ => uncounted_pure _))

variable [DecidableEq K]

theorem uncounted_delNode (k : Option K) : Uncounted (delNode k : Method K V E Unit) := by
  unfold delNode
  refine uncounted_get.bind (fun c => ?_)
  cases k with
  | none => exact uncounted_throw _
  | some k =>
      dsimp only
      split
      · exact uncounted_modify fun _ => rfl
      · exact uncounted_throw _

theorem uncounted_evict : Uncounted (evict : Method K V E (Option K)) := by
  unfold evict
  refine uncounted_get.bind (fun c => (uncounted_assertSome _).bind (fun victim => ?_))
  have hrest : Uncounted (do
      unlink victim
      let c ← MonadState.get
      delNode (c.key victim)
      return c.key victim : Method K V E (Option K)) :=
    (uncounted_unlink victim).bind (fun _ => uncounted_get.bind (fun c =>
      (uncounted_delNode _).bind (fun _ => uncounted_pure _)))
  split
  · exact (uncounted_throw _).bind (fun _ => hrest)
  · exact hrest

/-- `put` looks nothing up. -/
theorem uncounted_put (k : K) (v : V) : Uncounted (LruCache.put k v : Method K V E (Option K)) := by
  unfold LruCache.put
  refine uncounted_get.bind (fun c => ?_)
  split
  · exact uncounted_pure _
  · cases OrderedDict.lookup c._nodes k with
    | some existing =>
        dsimp only
        refine Uncounted.bind (uncounted_modify fun _ => rfl) (fun _ => ?_)
        exact (uncounted_move_to_front existing).bind (fun _ => uncounted_pure _)
    | none =>
        dsimp only
        refine Uncounted.bind (uncounted_modify fun _ => rfl) (fun _ => ?_)
        refine Uncounted.bind (uncounted_modify fun _ => rfl) (fun _ => ?_)
        refine (uncounted_push_front _).bind (fun _ => uncounted_get.bind (fun c => ?_))
        split
        · exact uncounted_evict
        · exact uncounted_pure _

/-- Nor does `invalidate`. -/
theorem uncounted_invalidate (k : K) :
    Uncounted (LruCache.invalidate k : Method K V E Bool) := by
  unfold LruCache.invalidate
  refine uncounted_get.bind (fun c => ?_)
  cases OrderedDict.lookup c._nodes k with
  | none => exact uncounted_pure _
  | some node =>
      dsimp only
      refine Uncounted.bind (uncounted_modify fun _ => rfl) (fun _ => ?_)
      exact (uncounted_unlink node).bind (fun _ => uncounted_pure _)

omit [DecidableEq K] in
/-- `clear` keeps the counters. -/
theorem uncounted_clear : Uncounted (LruCache.clear : Method K V E Unit) := by
  unfold LruCache.clear
  refine Uncounted.bind (uncounted_modify fun _ => rfl) (fun _ => ?_)
  exact Uncounted.bind (uncounted_modify fun _ => rfl) (fun _ => uncounted_modify fun _ => rfl)

end Uncounted

variable [DecidableEq K]

/-- The key that an operation looks up and counts. -/
def Operation.lookedUp : Operation K V E → Option K
  | .get key _ => some key
  | .get_or_load key _ => some key
  | _ => none

/-- The counters after an operation on `c`: a lookup is a hit where the key is there. -/
def counted (c : LruCache K V) (op : Operation K V E) : ℕ × ℕ :=
  match op.lookedUp with
  | none => c.counters
  | some key => if c.contains key then (c._hits + 1, c._misses) else (c._hits, c._misses + 1)

theorem counted_found {c : LruCache K V} {op : Operation K V E} {k : K} {i : ℕ}
    (hop : op.lookedUp = some k) (hk : OrderedDict.lookup c._nodes k = some i) :
    c.counted op = (c._hits + 1, c._misses) := by
  unfold counted LruCache.contains
  rw [hop]
  dsimp only
  rw [hk]
  rfl

theorem counted_absent {c : LruCache K V} {op : Operation K V E} {k : K}
    (hop : op.lookedUp = some k) (hk : OrderedDict.lookup c._nodes k = none) :
    c.counted op = (c._hits, c._misses + 1) := by
  unfold counted LruCache.contains
  rw [hop]
  dsimp only
  rw [hk]
  rfl

/-- `get` counts one hit or one miss. -/
theorem counters_get (c : LruCache K V) (k : K) (default : Option V) :
    (call (LruCache.get k default : Method K V E (Option V)) c).2.counters
      = c.counted (.get k default : Operation K V E) := by
  unfold LruCache.get
  rw [call_bind call_get]
  cases hk : OrderedDict.lookup c._nodes k with
  | none =>
      rw [counted_absent rfl hk]
      rfl
  | some node =>
      rw [counted_found rfl hk]
      show (call (modify _ >>= fun _ => _) c).2.counters = _
      rw [call_bind (call_modify _)]
      exact uncounted_used node _

/-- So does `get_or_load`, whether the loader raises or not. -/
theorem counters_get_or_load (c : LruCache K V) (k : K) (loader : K → Except E V) :
    (call (LruCache.get_or_load k loader) c).2.counters = c.counted (.get_or_load k loader) := by
  unfold LruCache.get_or_load
  rw [call_bind call_get]
  cases hk : OrderedDict.lookup c._nodes k with
  | none =>
      rw [counted_absent rfl hk]
      show (call (modify _ >>= fun _ => _) c).2.counters = _
      rw [call_bind (call_modify _)]
      -- The miss is counted before the loader is asked.
      cases loader k with
      | error err => rfl
      | ok v => exact (uncounted_put k v).bind (fun _ => uncounted_pure _) _
  | some node =>
      rw [counted_found rfl hk]
      show (call (modify _ >>= fun _ => _) c).2.counters = _
      rw [call_bind (call_modify _)]
      exact uncounted_used node _

omit [DecidableEq K] in
/-- A new cache counted nothing. -/
theorem counters_new {capacity : ℤ} {c : LruCache K V} (h : new capacity = .ok c) :
    c._hits = 0 ∧ c._misses = 0 := by
  unfold new at h
  split at h
  · cases h
  · cases h
    exact ⟨rfl, rfl⟩

/-- What an operation counts, on any cache. -/
theorem counters_perform (c : LruCache K V) (op : Operation K V E) :
    (call (perform op) c).2.counters = c.counted op := by
  cases op with
  | get k default => exact (counters_bind_pure _ _ c).trans (counters_get c k default)
  | get_or_load k loader => exact (counters_bind_pure _ _ c).trans (counters_get_or_load c k loader)
  | put k v => exact (uncounted_put k v).bind (fun _ => uncounted_pure _) c
  | invalidate k => exact (uncounted_invalidate k).bind (fun _ => uncounted_pure _) c
  | clear => exact uncounted_clear.bind (fun _ => uncounted_pure _) c
  | contains k => rfl
  | len => rfl
  | iter =>
      refine uncounted_get.bind (fun c => ?_) c
      cases c.iter with
      | ok keys => exact uncounted_pure _
      | error err => exact uncounted_throw _

/-- Every lookup is counted once. -/
theorem counted_total (c : LruCache K V) (op : Operation K V E) :
    (c.counted op).1 + (c.counted op).2 = c._hits + c._misses + op.lookedUp.toList.length := by
  unfold counted
  cases op.lookedUp with
  | none => rfl
  | some k =>
      dsimp only [Option.toList_some, List.length_singleton]
      split
      · exact Nat.add_right_comm _ 1 _
      · exact (Nat.add_assoc _ _ 1).symm

/-- A cache that has what another one has counts the hits that the other one counts. -/
theorem counted_hits_mono {c c' : LruCache K V} (hhits : c._hits ≤ c'._hits)
    (hcontains : ∀ k, c.contains k → c'.contains k) (op : Operation K V E) :
    (c.counted op).1 ≤ (c'.counted op).1 := by
  unfold counted
  cases op.lookedUp with
  | none => exact hhits
  | some k =>
      dsimp only
      by_cases hk : c.contains k = true
      · rw [if_pos hk, if_pos (hcontains k hk)]
        exact Nat.succ_le_succ hhits
      · rw [if_neg hk]
        split
        · exact Nat.le_succ_of_le hhits
        · exact hhits

/-! ## The same operations with less and with more room -/

/-- The keys listed by the reference model. -/
def keys (entries : List (K × V)) : List K := entries.map Prod.fst

theorem keys_without (entries : List (K × V)) (k : K) :
    keys (without entries k) = (keys entries).filter (fun a => a ≠ k) := by
  unfold keys without
  rw [List.filter_map]
  rfl

/-- What is put comes first, and the last key goes if there is no room. -/
theorem keys_insertFront (capacity : ℕ) (entries : List (K × V)) (k : K) (v : V) :
    keys (insertFront capacity entries k v)
      = (k :: (keys entries).filter (fun a => a ≠ k)).take capacity := by
  rw [← keys_without]
  unfold insertFront keys
  rw [List.map_take, List.map_cons]

theorem find_isSome {entries : List (K × V)} {k : K} :
    (find entries k).isSome ↔ k ∈ keys entries := by
  unfold find keys
  rw [Option.isSome_map, List.find?_isSome, List.mem_map]
  simp only [decide_eq_true_eq]

section Compare

variable {n d : ℕ} {fewer more : List (K × V)} {k : K}

/-- The same key put into both caches. -/
theorem within_insertFront (h : Within d (keys fewer) (keys more)) (n : ℕ) (k : K) (v w : V) :
    Within d (keys (insertFront n fewer k v)) (keys (insertFront (n + d) more k w)) := by
  rw [keys_insertFront, keys_insertFront]
  exact ((h.filter _).cons k).take n

/-- A hit where there is more room and a miss where there is less. -/
theorem within_used (h : Within d (keys fewer) (keys more)) (hroom : more.length ≤ n + d)
    (hmiss : find fewer k = none) {w : V} (hhit : find more k = some w) :
    Within d (keys fewer) (keys (insertFront (n + d) more k w)) := by
  have hsmall : k ∉ keys fewer := by
    rw [← find_isSome, hmiss]
    exact Bool.false_ne_true
  have hlarge : k ∈ keys more := by
    rw [← find_isSome, hhit]
    rfl
  have hused := h.used_in_large hsmall hlarge
  rw [keys_insertFront, List.take_of_length_le]
  · exact hused
  · -- Nothing is cut off, as no key is new.
    have hshorter : ((keys more).filter (fun a => a ≠ k)).length < (keys more).length :=
      List.length_filter_lt_length_iff_exists.mpr ⟨k, hlarge, by simp⟩
    have hkeys : (keys more).length = more.length := List.length_map _
    rw [List.length_cons]
    omega

/-- The same operation on both keeps the distance. -/
theorem within_answer (h : Within d (keys fewer) (keys more)) (hroom : more.length ≤ n + d)
    (op : Operation K V E) :
    Within d (keys (answer n fewer op).2) (keys (answer (n + d) more op).2) := by
  have hfound : ∀ k v, find fewer k = some v → ∃ w, find more k = some w := by
    intro k v hfind
    refine Option.isSome_iff_exists.mp (find_isSome.mpr (h.mem (find_isSome.mp ?_)))
    rw [hfind]
    rfl
  cases op with
  | get k default =>
      cases hfewer : find fewer k with
      | some v =>
          obtain ⟨w, hmore⟩ := hfound k v hfewer
          simp only [answer, hfewer, hmore]
          exact within_insertFront h n k v w
      | none =>
          cases hmore : find more k with
          | none =>
              simp only [answer, hfewer, hmore]
              exact h
          | some w =>
              simp only [answer, hfewer, hmore]
              exact within_used h hroom hfewer hmore
  | get_or_load k loader =>
      cases hfewer : find fewer k with
      | some v =>
          obtain ⟨w, hmore⟩ := hfound k v hfewer
          simp only [answer, hfewer, hmore]
          exact within_insertFront h n k v w
      | none =>
          cases hmore : find more k with
          | none =>
              cases hload : loader k with
              | error err =>
                  simp only [answer, hfewer, hmore, hload]
                  exact h
              | ok v =>
                  simp only [answer, hfewer, hmore, hload]
                  exact within_insertFront h n k v v
          | some w =>
              -- Only the cache with less room asks the loader.
              cases hload : loader k with
              | error err =>
                  simp only [answer, hfewer, hmore, hload]
                  exact within_used h hroom hfewer hmore
              | ok v =>
                  simp only [answer, hfewer, hmore, hload]
                  exact within_insertFront h n k v w
  | put k v => exact within_insertFront h n k v v
  | invalidate k =>
      simp only [answer, keys_without]
      exact h.filter _
  | clear => exact .nil
  | contains k => exact h
  | len => exact h
  | iter => exact h

end Compare

/-- Two caches after the same operations, one with room for `d` more entries. -/
structure Beside (n d : ℕ) (small large : LruCache K V) (lookups : ℕ) : Prop where
  listed : ∃ fewer more, Refines n small fewer ∧ Refines (n + d) large more ∧
    Within d (keys fewer) (keys more)
  hits : small._hits ≤ large._hits
  small_total : small._hits + small._misses = lookups
  large_total : large._hits + large._misses = lookups

section Beside

variable {n d lookups : ℕ} {small large : LruCache K V}

/-- What the smaller cache holds, the larger holds. -/
theorem Beside.contains (h : Beside n d small large lookups) {k : K} (hk : small.contains k) :
    large.contains k := by
  obtain ⟨fewer, more, hsmall, hlarge, hwithin⟩ := h.listed
  rw [hsmall.contains, find_isSome] at hk
  rw [hlarge.contains, find_isSome]
  exact hwithin.mem hk

theorem Beside.size (h : Beside n d small large lookups) :
    small.stats.size ≤ large.stats.size ∧ large.stats.size ≤ small.stats.size + d := by
  obtain ⟨fewer, more, ⟨-, -, ids, hfewer⟩, ⟨-, -, ids', hmore⟩, hwithin⟩ := h.listed
  have hsmall : small.stats.size = (keys fewer).length := hfewer.len.trans (List.length_map _).symm
  have hlarge : large.stats.size = (keys more).length := hmore.len.trans (List.length_map _).symm
  rw [hsmall, hlarge]
  exact ⟨hwithin.sublist.length_le, hwithin.length⟩

/-- One operation on both. -/
theorem Beside.perform (h : Beside n d small large lookups) (op : Operation K V E) :
    Beside n d (call (perform op) small).2 (call (perform op) large).2
      (lookups + op.lookedUp.toList.length) := by
  have hmono := counted_hits_mono h.hits (fun k => h.contains) op
  have hsmalltotal := counted_total small op
  have hlargetotal := counted_total large op
  rw [h.small_total] at hsmalltotal
  rw [h.large_total] at hlargetotal
  rw [← counters_perform] at hmono hsmalltotal hlargetotal
  rw [← counters_perform] at hmono
  refine ⟨?_, hmono, hsmalltotal, hlargetotal⟩
  obtain ⟨fewer, more, hsmall, hlarge, hwithin⟩ := h.listed
  obtain ⟨small', hcallsmall, hsmall'⟩ := perform_ok hsmall op
  obtain ⟨large', hcalllarge, hlarge'⟩ := perform_ok hlarge op
  rw [hcallsmall, hcalllarge]
  exact ⟨_, _, hsmall', hlarge', within_answer hwithin hlarge.bounded op⟩

/-- The cache after a list of operations. -/
def after (c : LruCache K V) (ops : List (Operation K V E)) : LruCache K V :=
  (Lts.replies (fun c op => call (LruCache.perform op) c) c ops).2

/-- After any operations the two caches stand beside each other. -/
theorem Beside.after (h : Beside n d small large lookups) (ops : List (Operation K V E)) :
    Beside n d (small.after ops) (large.after ops)
      (lookups + (ops.filterMap Operation.lookedUp).length) := by
  induction ops generalizing small large lookups with
  | nil => exact h
  | cons op ops ih =>
      have hrest := ih (h.perform op)
      have hlookups : (op.lookedUp.toList.length + (ops.filterMap Operation.lookedUp).length)
          = ((op :: ops).filterMap Operation.lookedUp).length := by
        rw [List.filterMap_cons]
        cases op.lookedUp with
        | none => exact Nat.zero_add _
        | some k => exact Nat.add_comm 1 _
      rw [Nat.add_assoc, hlookups] at hrest
      exact hrest

end Beside

/-- **More room never means fewer hits.** Two new caches, one with room for `d` more entries,
after the same operations, whatever they are and whatever the loaders do: the larger one
contains what the smaller one contains, and at most `d` entries besides; both counted every
lookup once; and the larger one has no fewer hits, no more misses and no lower hit rate. -/
theorem larger_cache_hits_more (n d : ℕ) (ops : List (Operation K V E)) :
    ∃ small large : LruCache K V, new (n : ℤ) = .ok small ∧ new ((n + d : ℕ) : ℤ) = .ok large ∧
      let s := (small.after ops).stats
      let l := (large.after ops).stats
      (∀ k, (small.after ops).contains k → (large.after ops).contains k) ∧
      s.size ≤ l.size ∧ l.size ≤ s.size + d ∧
      s.hits + s.misses = (ops.filterMap Operation.lookedUp).length ∧
      l.hits + l.misses = (ops.filterMap Operation.lookedUp).length ∧
      s.hits ≤ l.hits ∧ l.misses ≤ s.misses ∧ s.hit_rate ≤ l.hit_rate := by
  obtain ⟨small, hsmall, hsmallempty⟩ := new_ok (K := K) (V := V) n
  obtain ⟨large, hlarge, hlargeempty⟩ := new_ok (K := K) (V := V) (n + d)
  refine ⟨small, large, hsmall, hlarge, ?_⟩
  obtain ⟨hsmallhits, hsmallmisses⟩ := counters_new hsmall
  obtain ⟨hlargehits, hlargemisses⟩ := counters_new hlarge
  have hstart : Beside n d small large 0 :=
    ⟨⟨[], [], hsmallempty, hlargeempty, .nil⟩, by omega, by omega, by omega⟩
  have hend := hstart.after ops
  rw [Nat.zero_add] at hend
  have hmisses : (large.after ops)._misses ≤ (small.after ops)._misses := by
    have hhits := hend.hits
    have hsmalltotal := hend.small_total
    have hlargetotal := hend.large_total
    omega
  exact ⟨fun k => hend.contains, hend.size.1, hend.size.2, hend.small_total, hend.large_total,
    hend.hits, hmisses, hit_rate_mono hend.hits (hend.small_total.trans hend.large_total.symm)⟩

/-- Two workflows in turn: with room for one they are read anew each time. -/
example :
    let ops : List (Operation String ℕ Empty) :=
      ["a", "b", "a", "b"].map (fun k => .get_or_load k (fun _ => .ok 0))
    (new 1).map (fun c => (c.after ops).stats.hit_rate) = .ok 0 ∧
      (new 2).map (fun c => (c.after ops).stats.hit_rate) = .ok (1 / 2) := by
  decide +kernel

end LruCache

end Conductor
