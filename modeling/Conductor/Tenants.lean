/-
The rate limiter, one key at a time.

What the limiter holds of one key, its bucket and when it was last seen, is all that a
`check` of that key reads or writes; `evict_idle` treats every key by itself. So the
limiter is many tenants side by side, and two questions about whole histories become
questions about one tenant: whether other keys can be noticed, and whether an eviction
can.

An eviction forgets the bucket, and the next `check` builds a full one. That is
invisible when the forgotten bucket would have been full by then. It was refilled no
earlier than the key was last seen, up to the time that passes between the two readings
of one `check`; so what accrues in `idle_ttl`, less that time, must fill the bucket.
-/
import Mathlib.Tactic.FieldSimp
import Mathlib.Tactic.NormNum
import Conductor.Lib.Runs
import Conductor.RateLimit
import Conductor.RateBound

set_option autoImplicit false

open Relational

namespace Conductor

/-! ## Calls -/

/-- A call of a limiter, with what the clock says while it runs. -/
inductive LimiterCall (K : Type) where
  | check (key : K) (cost : ℤ) (clock : Readings)
  | evict_idle (now : ℚ)
deriving DecidableEq

/-- What a call returns or raises. -/
inductive LimiterReply (K : Type) where
  | checked (outcome : Except (LimiterError K) Decision)
  | evicted (outcome : Except (LimiterError K) ℕ)
deriving DecidableEq

namespace LimiterCall

variable {K : Type} [DecidableEq K]

def isCheck : LimiterCall K → Bool
  | .check _ _ _ => true
  | .evict_idle _ => false

/-- A `check` of `k`. -/
def isFor (k : K) : LimiterCall K → Bool
  | .check key _ _ => key = k
  | .evict_idle _ => false

/-- Everything but a `check` of another key. -/
def concerns (k : K) : LimiterCall K → Bool
  | .check key _ _ => key = k
  | .evict_idle _ => true

/-- What the clock says during a call, in the order in which it is read. -/
def readings : LimiterCall K → List ℚ
  | .check _ _ clock => [clock.built, clock.seen, clock.refilled]
  | .evict_idle now => [now]

/-- The time between the two readings of one `check`, that of `_last_seen` and that of
`_refill`. -/
def lag : LimiterCall K → ℚ
  | .check _ _ clock => clock.refilled - clock.seen
  | .evict_idle _ => 0

end LimiterCall

namespace RateLimiter

variable {K : Type} [DecidableEq K]

def perform (l : RateLimiter K) : LimiterCall K → LimiterReply K × RateLimiter K
  | .check key cost clock => ((l.check clock key cost).1 |> .checked, (l.check clock key cost).2)
  | .evict_idle now => ((l.evict_idle now).1 |> .evicted, (l.evict_idle now).2)

/-- The two dictionaries have the same keys. -/
def Paired (l : RateLimiter K) : Prop :=
  OrderedDict.keys l._buckets = OrderedDict.keys l._last_seen

end RateLimiter

/-! ## One tenant -/

/-- The limiter as one key knows it. -/
structure Tenant where
  capacity : ℤ
  refill_rate : ℚ
  idle_ttl : ℚ
  entry : Option (TokenBucket × ℚ)
deriving DecidableEq

namespace Tenant

/-- The bucket a `check` finds or builds. -/
def bucket (t : Tenant) (built : ℚ) : Except Exn TokenBucket :=
  match t.entry with
  | some (bucket, _) => .ok bucket
  | none => TokenBucket.new t.capacity t.refill_rate built

def check (t : Tenant) (clock : Readings) (cost : ℤ) : Except Exn Decision × Tenant :=
  match t.bucket clock.built with
  | .error err => (.error err, t)
  | .ok bucket =>
      ((bucket.try_acquire clock.refilled cost).1,
        { t with entry := some ((bucket.try_acquire clock.refilled cost).2, clock.seen) })

def evict_idle (t : Tenant) (now : ℚ) : Tenant :=
  { t with entry := t.entry.filter (fun e => ¬ e.2 < now - t.idle_ttl) }

end Tenant

namespace RateLimiter

variable {K : Type} [DecidableEq K] {l : RateLimiter K}

/-- What the limiter holds of `k`. -/
def tenant (l : RateLimiter K) (k : K) : Tenant :=
  { capacity := l._capacity
    refill_rate := l._refill_rate
    idle_ttl := l._idle_ttl
    entry := (OrderedDict.lookup l._buckets k).bind (fun bucket =>
      (OrderedDict.lookup l._last_seen k).map (fun seen => (bucket, seen))) }

omit [DecidableEq K] in
theorem paired_new (capacity : ℤ) (refill_rate idle_ttl : ℚ) :
    (new capacity refill_rate idle_ttl : RateLimiter K).Paired := rfl

theorem Paired.seen (h : l.Paired) {k : K} {bucket : TokenBucket}
    (hbucket : OrderedDict.lookup l._buckets k = some bucket) :
    ∃ seen, OrderedDict.lookup l._last_seen k = some seen := by
  have hkey : k ∈ OrderedDict.keys l._buckets :=
    OrderedDict.lookup_isSome.mp (by rw [hbucket]; rfl)
  rw [h] at hkey
  exact Option.isSome_iff_exists.mp (OrderedDict.lookup_isSome.mpr hkey)

/-- `l'` is `l` with one key's entry written. -/
structure Written (l l' : RateLimiter K) (key : K) (entry : TokenBucket × ℚ) : Prop where
  capacity : l'._capacity = l._capacity
  refill_rate : l'._refill_rate = l._refill_rate
  idle_ttl : l'._idle_ttl = l._idle_ttl
  bucket : ∀ k, OrderedDict.lookup l'._buckets k =
    if k = key then some entry.1 else OrderedDict.lookup l._buckets k
  seen : ∀ k, OrderedDict.lookup l'._last_seen k =
    if k = key then some entry.2 else OrderedDict.lookup l._last_seen k
  bucket_keys : OrderedDict.keys l'._buckets =
    OrderedDict.keys (OrderedDict.set l._buckets key entry.1)
  seen_keys : OrderedDict.keys l'._last_seen =
    OrderedDict.keys (OrderedDict.set l._last_seen key entry.2)

theorem spend_written (l : RateLimiter K) (clock : Readings) (key : K) (cost : ℤ)
    (bucket : TokenBucket) :
    l.Written (l.spend clock key cost bucket).2 key
      ((bucket.try_acquire clock.refilled cost).2, clock.seen) where
  capacity := rfl
  refill_rate := rfl
  idle_ttl := rfl
  bucket := fun _ => OrderedDict.lookup_set _ _ _ _
  seen := fun _ => OrderedDict.lookup_set _ _ _ _
  bucket_keys := rfl
  seen_keys := rfl

/-- A bucket that is put there first and then spent from is written once. -/
theorem Written.of_built {l' : RateLimiter K} {key : K} {entry : TokenBucket × ℚ}
    {bucket : TokenBucket}
    (h : Written { l with _buckets := OrderedDict.set l._buckets key bucket } l' key entry) :
    l.Written l' key entry where
  capacity := h.capacity
  refill_rate := h.refill_rate
  idle_ttl := h.idle_ttl
  bucket := by
    intro k
    rw [h.bucket k, OrderedDict.lookup_set]
    by_cases hk : k = key
    · rw [if_pos hk, if_pos hk]
    · rw [if_neg hk, if_neg hk, if_neg hk]
  seen := h.seen
  bucket_keys := by
    rw [h.bucket_keys, OrderedDict.keys_set, OrderedDict.keys_set, OrderedDict.keys_set]
    by_cases hkey : key ∈ OrderedDict.keys l._buckets
    · rw [if_pos hkey, if_pos hkey]
    · rw [if_neg hkey, if_pos (List.mem_append_right _ (List.mem_singleton_self key))]
  seen_keys := h.seen_keys

theorem Written.paired {l' : RateLimiter K} {key : K} {entry : TokenBucket × ℚ}
    (h : l.Written l' key entry) (hpaired : l.Paired) : l'.Paired := by
  unfold Paired at *
  rw [h.bucket_keys, h.seen_keys, OrderedDict.keys_set, OrderedDict.keys_set, hpaired]

theorem Written.tenant_eq {l' : RateLimiter K} {key : K} {entry : TokenBucket × ℚ}
    (h : l.Written l' key entry) :
    l'.tenant key = { l.tenant key with entry := some entry } := by
  unfold tenant
  rw [h.capacity, h.refill_rate, h.idle_ttl, h.bucket, h.seen, if_pos rfl, if_pos rfl]
  rfl

theorem Written.tenant_other {l' : RateLimiter K} {key k : K} {entry : TokenBucket × ℚ}
    (h : l.Written l' key entry) (hk : k ≠ key) : l'.tenant k = l.tenant k := by
  unfold tenant
  rw [h.capacity, h.refill_rate, h.idle_ttl, h.bucket, h.seen, if_neg hk, if_neg hk]

/-- What `check` does: it raises with the constructor, or writes the key's entry. -/
theorem check_cases (h : l.Paired) (clock : Readings) (key : K) (cost : ℤ) :
    (∃ err, (l.tenant key).bucket clock.built = .error err ∧
      l.check clock key cost = (.error (.bucket err), l)) ∨
    ∃ bucket, (l.tenant key).bucket clock.built = .ok bucket ∧
      (l.check clock key cost).1 =
        (bucket.try_acquire clock.refilled cost).1.mapError .bucket ∧
      l.Written (l.check clock key cost).2 key
        ((bucket.try_acquire clock.refilled cost).2, clock.seen) := by
  cases hbucket : OrderedDict.lookup l._buckets key with
  -- A bucket that is there has been seen, so the tenant has it too.
  | some bucket =>
      obtain ⟨seen, hseen⟩ := h.seen hbucket
      have hcheck : l.check clock key cost = l.spend clock key cost bucket := by
        unfold check
        rw [hbucket]
      refine .inr ⟨bucket, ?_, ?_, ?_⟩
      · simp only [Tenant.bucket, tenant, hbucket, hseen, Option.bind_some, Option.map_some]
      · rw [hcheck]
        rfl
      · rw [hcheck]
        exact l.spend_written clock key cost bucket
  -- Without one a bucket is built, and the constructor is the one thing that raises.
  | none =>
      have hfound : (l.tenant key).bucket clock.built =
          TokenBucket.new l._capacity l._refill_rate clock.built := by
        simp only [Tenant.bucket, tenant, hbucket, Option.bind_none]
      rw [hfound]
      cases hnew : TokenBucket.new l._capacity l._refill_rate clock.built with
      | error err =>
          refine .inl ⟨err, rfl, ?_⟩
          unfold check
          rw [hbucket]
          simp only [hnew]
      | ok bucket =>
          have hcheck : l.check clock key cost =
              { l with _buckets := OrderedDict.set l._buckets key bucket }.spend clock key cost
                bucket := by
            unfold check
            rw [hbucket]
            simp only [hnew]
          refine .inr ⟨bucket, rfl, ?_, ?_⟩
          · rw [hcheck]
            rfl
          · rw [hcheck]
            exact Written.of_built (spend_written _ clock key cost bucket)

/-- A `check` is answered from the key's own entry and leaves the other tenants alone. -/
theorem check_tenant (h : l.Paired) (clock : Readings) (key : K) (cost : ℤ) :
    (l.check clock key cost).1 = ((l.tenant key).check clock cost).1.mapError .bucket ∧
      (l.check clock key cost).2.tenant key = ((l.tenant key).check clock cost).2 ∧
      (∀ k, k ≠ key → (l.check clock key cost).2.tenant k = l.tenant k) ∧
      (l.check clock key cost).2.Paired := by
  rcases check_cases h clock key cost with
    ⟨err, hbucket, hcheck⟩ | ⟨bucket, hbucket, hreply, hwritten⟩
  · have htenant : (l.tenant key).check clock cost = (.error err, l.tenant key) := by
      unfold Tenant.check
      rw [hbucket]
    rw [hcheck, htenant]
    exact ⟨rfl, rfl, fun k _ => rfl, h⟩
  · have htenant : (l.tenant key).check clock cost =
        ((bucket.try_acquire clock.refilled cost).1, { l.tenant key with
          entry := some ((bucket.try_acquire clock.refilled cost).2, clock.seen) }) := by
      unfold Tenant.check
      rw [hbucket]
    rw [htenant]
    exact ⟨hreply, hwritten.tenant_eq, fun k hk => hwritten.tenant_other hk, hwritten.paired h⟩

/-- `l'` is `l` without the keys of a list. -/
structure Dropped (l l' : RateLimiter K) (gone : List K) : Prop where
  capacity : l'._capacity = l._capacity
  refill_rate : l'._refill_rate = l._refill_rate
  idle_ttl : l'._idle_ttl = l._idle_ttl
  bucket : ∀ k, OrderedDict.lookup l'._buckets k =
    if k ∈ gone then none else OrderedDict.lookup l._buckets k
  seen : ∀ k, OrderedDict.lookup l'._last_seen k =
    if k ∈ gone then none else OrderedDict.lookup l._last_seen k
  paired : l'.Paired

/-- Both `del` statements of the loop find their key. -/
theorem evictLoop_ok (h : l.Paired) {stale : List K} (hnodup : stale.Nodup)
    (hthere : ∀ k ∈ stale, k ∈ OrderedDict.keys l._last_seen) :
    ∃ l', l.evictLoop stale = (.ok (), l') ∧ l.Dropped l' stale := by
  -- On the stale keys: what is dropped is not among the keys still to come.
  induction stale generalizing l with
  | nil =>
      refine ⟨l, rfl, rfl, rfl, rfl, fun k => ?_, fun k => ?_, h⟩
      · rw [if_neg List.not_mem_nil]
      · rw [if_neg List.not_mem_nil]
  | cons key stale ih =>
      obtain ⟨hkey, hnodup⟩ := List.nodup_cons.mp hnodup
      have hseen : key ∈ OrderedDict.keys l._last_seen := hthere key List.mem_cons_self
      have hbucket : key ∈ OrderedDict.keys l._buckets := by
        rw [h]
        exact hseen
      have hpaired : Paired { l with
          _buckets := OrderedDict.erase l._buckets key
          _last_seen := OrderedDict.erase l._last_seen key } := by
        unfold Paired
        dsimp only
        rw [OrderedDict.keys_erase, OrderedDict.keys_erase, h]
      obtain ⟨l', hloop, hdropped⟩ := ih hpaired hnodup (fun k hk => by
        rw [OrderedDict.keys_erase, List.mem_filter]
        refine ⟨hthere k (List.mem_cons_of_mem key hk), decide_eq_true ?_⟩
        rintro rfl
        exact hkey hk)
      refine ⟨l', ?_, hdropped.capacity, hdropped.refill_rate, hdropped.idle_ttl, fun k => ?_,
        fun k => ?_, hdropped.paired⟩
      · unfold evictLoop
        have hfound := Option.isNone_eq_false_iff.mpr (OrderedDict.lookup_isSome.mpr hbucket)
        have hfound' := Option.isNone_eq_false_iff.mpr (OrderedDict.lookup_isSome.mpr hseen)
        rw [hfound, if_neg Bool.false_ne_true]
        dsimp only
        rw [hfound', if_neg Bool.false_ne_true]
        exact hloop
      · rw [hdropped.bucket, OrderedDict.lookup_erase]
        simp only [List.mem_cons]
        by_cases hk : k = key
        · simp [hk]
        · simp [hk]
      · rw [hdropped.seen, OrderedDict.lookup_erase]
        simp only [List.mem_cons]
        by_cases hk : k = key
        · simp [hk]
        · simp [hk]

/-- `evict_idle` raises nothing, and evicts tenant by tenant. -/
theorem evict_idle_tenant (h : l.Paired) (now : ℚ) :
    (∃ dropped, (l.evict_idle now).1 = .ok dropped) ∧
      (∀ k, (l.evict_idle now).2.tenant k = (l.tenant k).evict_idle now) ∧
      (l.evict_idle now).2.Paired := by
  let stale := (l._last_seen.rows.filter (fun item => item.2 < now - l._idle_ttl)).map Prod.fst
  have hnodup : stale.Nodup := (List.filter_sublist.map Prod.fst).nodup l._last_seen.nodup
  have hstale : ∀ k, k ∈ stale ↔ ∃ seen, OrderedDict.lookup l._last_seen k = some seen ∧
      seen < now - l._idle_ttl := by
    intro k
    simp only [stale, List.mem_map, List.mem_filter, decide_eq_true_eq, Prod.exists,
      exists_and_right, exists_eq_right, OrderedDict.lookup_eq_some]
  have hthere : ∀ k ∈ stale, k ∈ OrderedDict.keys l._last_seen := by
    intro k hk
    obtain ⟨seen, hseen, -⟩ := (hstale k).mp hk
    exact OrderedDict.lookup_isSome.mp (by rw [hseen]; rfl)
  -- Each stale key is deleted once, from two dictionaries that both have it.
  obtain ⟨l', hloop, hdropped⟩ := evictLoop_ok h hnodup hthere
  have hrun : l.evict_idle now = (.ok stale.length, l') := by
    unfold evict_idle
    dsimp only
    rw [hloop]
    rfl
  rw [hrun]
  refine ⟨⟨_, rfl⟩, fun k => ?_, hdropped.paired⟩
  unfold tenant Tenant.evict_idle
  rw [hdropped.capacity, hdropped.refill_rate, hdropped.idle_ttl, hdropped.bucket, hdropped.seen]
  -- Whether a tenant goes is decided by its own `_last_seen`.
  by_cases hk : k ∈ stale
  · obtain ⟨seen, hseen, hidle⟩ := (hstale k).mp hk
    rw [if_pos hk, hseen]
    cases OrderedDict.lookup l._buckets k with
    | none => rfl
    | some bucket => simp only [Option.bind_some, Option.bind_none, Option.map_some,
        Option.filter_some, hidle, not_true_eq_false, decide_false, Bool.false_eq_true, if_false]
  · rw [if_neg hk, if_neg hk]
    cases hseen : OrderedDict.lookup l._last_seen k with
    | none => cases OrderedDict.lookup l._buckets k <;> rfl
    | some seen =>
        have hidle : ¬ seen < now - l._idle_ttl := fun hlt => hk ((hstale k).mpr ⟨seen, hseen, hlt⟩)
        cases OrderedDict.lookup l._buckets k with
        | none => rfl
        | some bucket => simp only [Option.bind_some, Option.map_some, Option.filter_some, hidle,
            not_false_eq_true, decide_true, if_true]

/-! ## Tenants do not interfere -/

/-- Every call keeps the dictionaries paired. -/
theorem perform_paired (h : l.Paired) (call : LimiterCall K) : (l.perform call).2.Paired := by
  cases call with
  | check key cost clock => exact (check_tenant h clock key cost).2.2.2
  | evict_idle now => exact (evict_idle_tenant h now).2.2

/-- The limiter after the first `n` calls. -/
def after (l : RateLimiter K) (calls : List (LimiterCall K)) (n : ℕ) : RateLimiter K :=
  (Lts.replies perform l (calls.take n)).2

theorem replies_paired (h : l.Paired) (calls : List (LimiterCall K)) :
    (Lts.replies perform l calls).2.Paired := by
  induction calls generalizing l with
  | nil => exact h
  | cons call calls ih => exact ih (perform_paired h call)

/-- No eviction of a run raises. -/
theorem replies_evicted (h : l.Paired) (calls : List (LimiterCall K)) :
    ∀ reply ∈ (Lts.replies perform l calls).1, ∀ outcome, reply = .evicted outcome →
      ∃ dropped, outcome = .ok dropped := by
  induction calls generalizing l with
  | nil =>
      intro reply hreply
      cases hreply
  | cons call calls ih =>
      intro reply hreply outcome houtcome
      rcases List.mem_cons.mp hreply with hfirst | hrest
      · rw [hfirst] at houtcome
        cases call with
        | check key cost clock => cases houtcome
        | evict_idle now =>
            obtain ⟨dropped, hdropped⟩ := (evict_idle_tenant h now).1
            cases houtcome
            exact ⟨dropped, hdropped⟩
      · exact ih (perform_paired h call) reply hrest outcome houtcome

/-- Two limiters that hold the same of `k`. -/
structure Alike (k : K) (l l' : RateLimiter K) : Prop where
  left : l.Paired
  right : l'.Paired
  tenant : l.tenant k = l'.tenant k

theorem Alike.perform {k : K} {l' : RateLimiter K} (h : Alike k l l') {call : LimiterCall K}
    (hcall : call.concerns k = true) :
    (call.isFor k = true → (l.perform call).1 = (l'.perform call).1) ∧
      Alike k (l.perform call).2 (l'.perform call).2 := by
  have hpaired := perform_paired h.left call
  have hpaired' := perform_paired h.right call
  cases call with
  | check key cost clock =>
      obtain rfl : key = k := of_decide_eq_true hcall
      obtain ⟨hreply, htenant, -⟩ := check_tenant h.left clock key cost
      obtain ⟨hreply', htenant', -⟩ := check_tenant h.right clock key cost
      refine ⟨fun _ => ?_, hpaired, hpaired', ?_⟩
      · show LimiterReply.checked (l.check clock key cost).1 = .checked (l'.check clock key cost).1
        rw [hreply, hreply', h.tenant]
      · show (l.check clock key cost).2.tenant key = (l'.check clock key cost).2.tenant key
        rw [htenant, htenant', h.tenant]
  | evict_idle now =>
      refine ⟨fun hfor => absurd hfor Bool.false_ne_true, hpaired, hpaired', ?_⟩
      show (l.evict_idle now).2.tenant k = (l'.evict_idle now).2.tenant k
      rw [(evict_idle_tenant h.left now).2.1, (evict_idle_tenant h.right now).2.1, h.tenant]

theorem Alike.perform_other {k : K} {l' : RateLimiter K} (h : Alike k l l')
    {call : LimiterCall K} (hcall : call.concerns k = false) :
    Alike k (l.perform call).2 l' := by
  cases call with
  | check key cost clock =>
      have hkey : k ≠ key := fun he => of_decide_eq_false hcall he.symm
      refine ⟨perform_paired h.left _, h.right, ?_⟩
      exact ((check_tenant h.left clock key cost).2.2.1 k hkey).trans h.tenant
  | evict_idle now => cases hcall

/-- **Tenants do not interfere.** Whatever is asked of a limiter, with whatever
settings: the checks of a key are answered, or raise, as if nobody had checked another
key; no eviction raises; and the two dictionaries have the same keys all along. -/
theorem tenants_independent (capacity : ℤ) (refill_rate idle_ttl : ℚ)
    (calls : List (LimiterCall K)) :
    let l : RateLimiter K := new capacity refill_rate idle_ttl
    (∀ k, Lts.heard perform (LimiterCall.isFor k) l calls =
      Lts.heard perform (LimiterCall.isFor k) l (calls.filter (LimiterCall.concerns k))) ∧
    (∀ reply ∈ (Lts.replies perform l calls).1, ∀ outcome, reply = .evicted outcome →
      ∃ dropped, outcome = .ok dropped) ∧
    ∀ n, OrderedDict.keys (l.after calls n)._buckets =
      OrderedDict.keys (l.after calls n)._last_seen := by
  intro l
  have hpaired : l.Paired := paired_new capacity refill_rate idle_ttl
  refine ⟨fun k => ?_, replies_evicted hpaired calls,
    fun n => replies_paired hpaired (calls.take n)⟩
  -- The calls that are left out are checks of other keys.
  have hfor : ∀ call : LimiterCall K, call.isFor k = true → call.concerns k = true := by
    intro call hcall
    cases call with
    | check key cost clock => exact hcall
    | evict_idle now => rfl
  refine Lts.heard_filter (R := fun _ => Alike k) hfor
    (fun _ _ _ _ _ h hcall => h.perform hcall) (fun _ _ _ _ _ h hcall => h.perform_other hcall)
    (i := ()) ⟨hpaired, hpaired, rfl⟩ (Lts.meets_true (fun _ _ => ()) () calls)

end RateLimiter

/-! ## Buckets that cannot be told apart -/

namespace TokenBucket

variable {b b' : TokenBucket}

/-- From `since` on, a refill leaves the same of both. -/
def Same (since : ℚ) (b b' : TokenBucket) : Prop :=
  ∀ now, since ≤ now → b.refill now = b'.refill now

/-- A bucket that had the time to fill up is full. -/
theorem refill_full (h : b.Sound) {now : ℚ}
    (hfull : (b._capacity : ℚ) ≤ b._refill_rate * (now - b._updated_at)) :
    b.refill now = ⟨b._capacity, b._refill_rate, b._capacity, now⟩ := by
  have hcap : (1 : ℚ) ≤ b._capacity := by exact_mod_cast h.capacity
  have hpassed : ¬ now - b._updated_at ≤ 0 := by
    intro hback
    have := mul_nonpos_of_nonneg_of_nonpos h.rate.le hback
    linarith
  have hnonneg := h.nonneg
  unfold refill
  dsimp only
  rw [if_neg hpassed, min_eq_left]
  rw [mul_comm]
  linarith

/-- A new bucket stays full. -/
theorem refill_new {capacity : ℤ} {refill_rate built now : ℚ} (hrate : 0 < refill_rate)
    (hnow : built ≤ now) :
    refill ⟨capacity, refill_rate, capacity, built⟩ now =
      ⟨capacity, refill_rate, capacity, now⟩ := by
  unfold refill
  dsimp only
  split
  · rename_i hback
    rw [le_antisymm hnow (by linarith)]
  · rename_i hpassed
    have hmore := mul_pos (not_le.mp hpassed) hrate
    rw [min_eq_left (by linarith)]

/-- **A full bucket is a new one.** -/
theorem same_new (h : b.Sound) {now built : ℚ} (hbuilt : now ≤ built)
    (hfull : (b._capacity : ℚ) ≤ b._refill_rate * (now - b._updated_at)) :
    Same built ⟨b._capacity, b._refill_rate, b._capacity, built⟩ b := by
  intro later hlater
  rw [refill_new h.rate hlater, refill_full h]
  have hmore : b._refill_rate * (now - b._updated_at) ≤
      b._refill_rate * (later - b._updated_at) :=
    mul_le_mul_of_nonneg_left (by linarith) h.rate.le
  linarith

/-- Buckets that cannot be told apart answer alike and still cannot be told apart. -/
theorem Same.try_acquire {since now later : ℚ} (h : Same since b b') (hnow : since ≤ now)
    (hlater : since ≤ later) (cost : ℤ) :
    (b.try_acquire now cost).1 = (b'.try_acquire now cost).1 ∧
      Same later (b.try_acquire now cost).2 (b'.try_acquire now cost).2 := by
  have hrefill : b.refill now = b'.refill now := h now hnow
  have hcapacity : b._capacity = b'._capacity := by
    rw [← refill_capacity (b := b) now, hrefill, refill_capacity]
  have hsame : Same later b b' := fun t ht => h t (hlater.trans ht)
  unfold TokenBucket.try_acquire
  by_cases hlow : cost < 1
  · rw [if_pos hlow, if_pos hlow]
    exact ⟨rfl, hsame⟩
  rw [if_neg hlow, if_neg hlow, hcapacity]
  by_cases hhigh : cost > b'._capacity
  · rw [if_pos hhigh, if_pos hhigh]
    exact ⟨rfl, hsame⟩
  rw [if_neg hhigh, if_neg hhigh, hrefill]
  exact ⟨rfl, fun _ _ => rfl⟩

end TokenBucket

/-! ## Evictions of one tenant -/

namespace Tenant

variable {δ i : ℚ} {t t' : Tenant}

/-- At time `i`, `t` has been evicted now and then and `t'` never: whatever bucket a
`check` finds or builds in them, it cannot tell the two apart. Evictions stay invisible
because an entry of `t` was refilled no later than it was seen, up to `δ`, and `idle_ttl`
less `δ` fills a bucket. -/
structure Shadows (δ i : ℚ) (t t' : Tenant) : Prop where
  capacity : 1 ≤ t.capacity
  rate : 0 < t.refill_rate
  fills : (t.capacity : ℚ) ≤ t.refill_rate * (t.idle_ttl - δ)
  entry : ∀ bucket seen, t.entry = some (bucket, seen) →
    bucket.Sound ∧ bucket._capacity = t.capacity ∧ bucket._refill_rate = t.refill_rate ∧
      bucket._updated_at ≤ seen + δ ∧ seen ≤ i
  same : ∀ built, i ≤ built → ∃ bucket bucket', t.bucket built = .ok bucket ∧
    t'.bucket built = .ok bucket' ∧ TokenBucket.Same built bucket bucket'

theorem Shadows.mono {j : ℚ} (h : Shadows δ i t t') (hij : i ≤ j) : Shadows δ j t t' where
  capacity := h.capacity
  rate := h.rate
  fills := h.fills
  entry := by
    intro bucket seen hentry
    obtain ⟨hsound, hcapacity, hrate, hupdated, hseen⟩ := h.entry bucket seen hentry
    exact ⟨hsound, hcapacity, hrate, hupdated, hseen.trans hij⟩
  same := fun built hbuilt => h.same built (hij.trans hbuilt)

/-- The bucket a `check` goes on with: sound, with the tenant's settings, and refilled
no later than `seen` up to `δ`. -/
theorem Shadows.bucket_ok (h : Shadows δ i t t') {built seen : ℚ} {bucket : TokenBucket}
    (hbucket : t.bucket built = .ok bucket) (hbuilt : i ≤ built) (hseen : built ≤ seen)
    (hδ : 0 ≤ δ) :
    bucket.Sound ∧ bucket._capacity = t.capacity ∧ bucket._refill_rate = t.refill_rate ∧
      bucket._updated_at ≤ seen + δ := by
  unfold Tenant.bucket at hbucket
  cases hentry : t.entry with
  | some e =>
      rw [hentry] at hbucket
      cases hbucket
      obtain ⟨hsound, hcapacity, hrate, hupdated, hold⟩ := h.entry e.1 e.2 hentry
      exact ⟨hsound, hcapacity, hrate, by linarith⟩
  | none =>
      rw [hentry] at hbucket
      dsimp only at hbucket
      rw [TokenBucket.new_ok h.capacity h.rate] at hbucket
      cases hbucket
      exact ⟨TokenBucket.sound_new h.capacity h.rate, rfl, rfl, by dsimp only; linarith⟩

/-- A `check` gets the same answer from both and leaves them shadows. -/
theorem Shadows.check (h : Shadows δ i t t') {clock : Readings} (hbuilt : i ≤ clock.built)
    (hseen : clock.built ≤ clock.seen) (hrefilled : clock.seen ≤ clock.refilled)
    (hlag : clock.refilled - clock.seen ≤ δ) (cost : ℤ) :
    (t.check clock cost).1 = (t'.check clock cost).1 ∧
      Shadows δ clock.refilled (t.check clock cost).2 (t'.check clock cost).2 := by
  obtain ⟨b, b', hb, hb', hsame⟩ := h.same clock.built hbuilt
  have hcheck : t.check clock cost = ((b.try_acquire clock.refilled cost).1,
      { t with entry := some ((b.try_acquire clock.refilled cost).2, clock.seen) }) := by
    unfold Tenant.check
    rw [hb]
  have hcheck' : t'.check clock cost = ((b'.try_acquire clock.refilled cost).1,
      { t' with entry := some ((b'.try_acquire clock.refilled cost).2, clock.seen) }) := by
    unfold Tenant.check
    rw [hb']
  have hδ : 0 ≤ δ := by linarith
  obtain ⟨hsound, hcapacity, hrate, hupdated⟩ := h.bucket_ok hb hbuilt hseen hδ
  have hcall := TokenBucket.accounted hsound (.try_acquire cost clock.refilled)
  rw [hcheck, hcheck']
  refine ⟨(hsame.try_acquire (hseen.trans hrefilled) le_rfl cost).1, h.capacity, h.rate, h.fills,
    ?_, ?_⟩
  · rintro bucket seen ⟨⟩
    refine ⟨hcall.sound, hcall.capacity.trans hcapacity, hcall.rate.trans hrate, ?_, hrefilled⟩
    -- The bucket was refilled now, or not at all.
    have hclock : ((b.try_acquire clock.refilled cost).2)._updated_at =
        TokenBucket.latest b._capacity b._updated_at (.try_acquire cost clock.refilled) :=
      hcall.clock
    rw [hclock]
    show (if 1 ≤ cost ∧ cost ≤ b._capacity then max b._updated_at clock.refilled
      else b._updated_at) ≤ clock.seen + δ
    split
    · exact max_le hupdated (by linarith)
    · exact hupdated
  · intro built hlater
    exact ⟨_, _, rfl, rfl, (hsame.try_acquire (hseen.trans hrefilled)
      ((hseen.trans hrefilled).trans hlater) cost).2⟩

/-- An eviction of one of the two leaves them shadows. -/
theorem Shadows.evict_idle (h : Shadows δ i t t') {now : ℚ} (hnow : i ≤ now) :
    Shadows δ now (t.evict_idle now) t' := by
  have hlater := h.mono hnow
  by_cases hstale : ∃ bucket seen, t.entry = some (bucket, seen) ∧ seen < now - t.idle_ttl
  · obtain ⟨bucket, seen, hentry, hidle⟩ := hstale
    have hgone : t.evict_idle now = { t with entry := none } := by
      simp only [Tenant.evict_idle, hentry, Option.filter_some, hidle, not_true_eq_false,
        decide_false, Bool.false_eq_true, if_false]
    rw [hgone]
    refine ⟨h.capacity, h.rate, h.fills, fun _ _ hnone => (Option.some_ne_none _ hnone.symm).elim,
      fun built hbuilt => ?_⟩
    obtain ⟨b, b', hb, hb', hsame⟩ := hlater.same built hbuilt
    have hfound : t.bucket built = .ok bucket := by
      unfold Tenant.bucket
      rw [hentry]
    obtain rfl : bucket = b := Except.ok.inj (hfound.symm.trans hb)
    obtain ⟨hsound, hcapacity, hrate, hupdated, -⟩ := h.entry bucket seen hentry
    -- More than `idle_ttl` since it was seen, so the bucket is full by now.
    have hfull : (bucket._capacity : ℚ) ≤ bucket._refill_rate * (now - bucket._updated_at) := by
      rw [hcapacity, hrate]
      have hmore : t.refill_rate * (t.idle_ttl - δ) ≤
          t.refill_rate * (now - bucket._updated_at) :=
        mul_le_mul_of_nonneg_left (by linarith) h.rate.le
      exact h.fills.trans hmore
    have hnew := TokenBucket.same_new hsound hbuilt hfull
    rw [hcapacity, hrate] at hnew
    exact ⟨_, b', TokenBucket.new_ok h.capacity h.rate built, hb',
      fun later hl => (hnew later hl).trans (hsame later hl)⟩
  · have hkept : t.evict_idle now = t := by
      unfold Tenant.evict_idle
      cases hentry : t.entry with
      | none =>
          rw [Option.filter_none, ← hentry]
      | some e =>
          have hfresh : ¬ e.2 < now - t.idle_ttl := fun hidle => hstale ⟨e.1, e.2, hentry, hidle⟩
          simp only [Option.filter_some, hfresh, not_false_eq_true, decide_true, if_true]
          rw [← hentry]
    rw [hkept]
    exact hlater

end Tenant

/-! ## Evictions -/

namespace LimiterCall

variable {K : Type} [DecidableEq K] {δ i : ℚ}

/-- When a call read the clock for the last time. -/
def ended : LimiterCall K → ℚ
  | .check _ _ clock => clock.refilled
  | .evict_idle now => now

/-- The last reading so far. -/
def last (_ : ℚ) (call : LimiterCall K) : ℚ := call.ended

/-- A call whose readings start no earlier than `i`, go on, and lie within `δ`. -/
def Clocked (δ i : ℚ) : LimiterCall K → Prop
  | .check _ _ clock => i ≤ clock.built ∧ clock.built ≤ clock.seen ∧
      clock.seen ≤ clock.refilled ∧ clock.refilled - clock.seen ≤ δ
  | .evict_idle now => i ≤ now

omit [DecidableEq K] in
/-- Readings that never decrease, call by call. -/
theorem meets_clocked {calls : List (LimiterCall K)}
    (hfirst : ∀ r ∈ calls.flatMap readings, i ≤ r)
    (hsorted : (calls.flatMap readings).Pairwise (· ≤ ·)) (hlag : ∀ call ∈ calls, call.lag ≤ δ) :
    Lts.Meets last (Clocked δ) i calls := by
  induction calls generalizing i with
  | nil => trivial
  | cons call calls ih =>
      rw [List.flatMap_cons] at hsorted hfirst
      obtain ⟨hcall, hcalls, hacross⟩ := List.pairwise_append.mp hsorted
      have hrest := fun c hc => hlag c (List.mem_cons_of_mem call hc)
      have hown := hlag call List.mem_cons_self
      cases call with
      | check key cost clock =>
          refine ⟨⟨hfirst _ (by simp [readings]), ?_, ?_, hown⟩, ih ?_ hcalls hrest⟩
          · exact List.rel_of_pairwise_cons hcall (by simp)
          · exact List.rel_of_pairwise_cons hcall.of_cons (by simp)
          · exact fun r hr => hacross clock.refilled (by simp [readings]) r hr
      | evict_idle now =>
          refine ⟨hfirst _ (by simp [readings]), ih ?_ hcalls hrest⟩
          exact fun r hr => hacross now (by simp [readings]) r hr

end LimiterCall

namespace RateLimiter

variable {K : Type} [DecidableEq K] {δ i : ℚ} {l l' : RateLimiter K}

/-- Every tenant of `l'` is shadowed by the one of `l`. -/
structure Shadows (δ i : ℚ) (l l' : RateLimiter K) : Prop where
  left : l.Paired
  right : l'.Paired
  tenants : ∀ k, Tenant.Shadows δ i (l.tenant k) (l'.tenant k)

theorem Shadows.check (h : Shadows δ i l l') {call : LimiterCall K}
    (hclocked : call.Clocked δ i) (hcheck : call.isCheck = true) :
    (l.perform call).1 = (l'.perform call).1 ∧
      Shadows δ (LimiterCall.last i call) (l.perform call).2 (l'.perform call).2 := by
  have hpaired := perform_paired h.left call
  have hpaired' := perform_paired h.right call
  cases call with
  | evict_idle now => cases hcheck
  | check key cost clock =>
      obtain ⟨hbuilt, hseen, hrefilled, hlag⟩ := hclocked
      obtain ⟨hreply, hown, hothers, -⟩ := check_tenant h.left clock key cost
      obtain ⟨hreply', hown', hothers', -⟩ := check_tenant h.right clock key cost
      obtain ⟨hsame, hshadows⟩ := (h.tenants key).check hbuilt hseen hrefilled hlag cost
      refine ⟨?_, hpaired, hpaired', fun k => ?_⟩
      · show LimiterReply.checked (l.check clock key cost).1 = .checked (l'.check clock key cost).1
        rw [hreply, hreply', hsame]
      · show Tenant.Shadows δ clock.refilled ((l.check clock key cost).2.tenant k)
          ((l'.check clock key cost).2.tenant k)
        -- The key of the call moves on; for the others the time that passed is enough.
        by_cases hk : k = key
        · rw [hk, hown, hown']
          exact hshadows
        · rw [hothers k hk, hothers' k hk]
          exact (h.tenants k).mono (by linarith)

theorem Shadows.evict_idle (h : Shadows δ i l l') {call : LimiterCall K}
    (hclocked : call.Clocked δ i) (hcheck : call.isCheck = false) :
    Shadows δ (LimiterCall.last i call) (l.perform call).2 l' := by
  cases call with
  | check key cost clock => cases hcheck
  | evict_idle now =>
      refine ⟨perform_paired h.left _, h.right, fun k => ?_⟩
      show Tenant.Shadows δ now ((l.evict_idle now).2.tenant k) (l'.tenant k)
      rw [(evict_idle_tenant h.left now).2.1 k]
      exact (h.tenants k).evict_idle hclocked

theorem shadows_new {capacity : ℤ} {refill_rate idle_ttl : ℚ} (hcap : 1 ≤ capacity)
    (hrate : 0 < refill_rate) (hfills : (capacity : ℚ) ≤ refill_rate * (idle_ttl - δ)) :
    Shadows δ i (new capacity refill_rate idle_ttl : RateLimiter K)
      (new capacity refill_rate idle_ttl) := by
  refine ⟨paired_new _ _ _, paired_new _ _ _, fun k => ⟨hcap, hrate, hfills, ?_, ?_⟩⟩
  · intro bucket seen hentry
    cases hentry
  · intro built _
    exact ⟨_, _, TokenBucket.new_ok hcap hrate built, TokenBucket.new_ok hcap hrate built,
      fun _ _ => rfl⟩

/-- What the checks of a history answer does not depend on its evictions. -/
def EvictionsInvisible (l : RateLimiter K) (δ : ℚ) : Prop :=
  ∀ calls : List (LimiterCall K), (calls.flatMap LimiterCall.readings).Pairwise (· ≤ ·) →
    (∀ call ∈ calls, call.lag ≤ δ) →
    Lts.heard perform LimiterCall.isCheck l calls =
      Lts.heard perform LimiterCall.isCheck l (calls.filter LimiterCall.isCheck)

theorem evictionsInvisible_of_fills {capacity : ℤ} {refill_rate idle_ttl : ℚ}
    (hcap : 1 ≤ capacity) (hrate : 0 < refill_rate)
    (hfills : (capacity : ℚ) ≤ refill_rate * (idle_ttl - δ)) :
    EvictionsInvisible (new capacity refill_rate idle_ttl : RateLimiter K) δ := by
  intro calls hsorted hlag
  obtain ⟨i, hfirst⟩ := (List.finite_toSet (calls.flatMap LimiterCall.readings)).bddBelow
  refine Lts.heard_filter (R := Shadows δ) ?_ ?_ ?_ (shadows_new hcap hrate hfills)
    (LimiterCall.meets_clocked hfirst hsorted hlag)
  · exact fun call hcall => hcall
  · intro j l l' call hclocked h hcall
    exact ⟨fun _ => (h.check hclocked hcall).1, (h.check hclocked hcall).2⟩
  · intro j l l' call hclocked h hcall
    exact h.evict_idle hclocked hcall

/-! ### When an eviction shows

A key spends its whole bucket in a `check` that takes `δ`, the limiter is asked to evict
as soon as the key counts as idle, and the key comes back at once. -/

section Shows

variable {capacity : ℤ} {refill_rate idle_ttl e : ℚ}

/-- The bucket after it was emptied at `δ`. -/
def emptied (capacity : ℤ) (refill_rate δ : ℚ) : TokenBucket := ⟨capacity, refill_rate, 0, δ⟩

/-- Spending a whole new bucket is granted. -/
theorem try_acquire_whole (hcap : 1 ≤ capacity) (hrate : 0 < refill_rate) {built now : ℚ}
    (hnow : built ≤ now) :
    TokenBucket.try_acquire ⟨capacity, refill_rate, capacity, built⟩ now capacity =
      (.ok ⟨true, pyInt 0, 0, capacity⟩, emptied capacity refill_rate now) := by
  unfold TokenBucket.try_acquire
  dsimp only
  rw [if_neg (not_lt.mpr hcap), if_neg (lt_irrefl capacity), TokenBucket.refill_new hrate hnow,
    if_pos (le_refl (capacity : ℚ)), sub_self]
  rfl

/-- Spending as much from an emptied bucket is denied until it has filled up. -/
theorem try_acquire_emptied (hcap : 1 ≤ capacity) (hshort : refill_rate * (e - δ) < capacity) :
    ∃ decision bucket, decision.allowed = false ∧
      (emptied capacity refill_rate δ).try_acquire e capacity = (.ok decision, bucket) := by
  have hpos : (0 : ℚ) < capacity := by exact_mod_cast hcap
  have hheld : ((emptied capacity refill_rate δ).refill e)._tokens < capacity := by
    unfold TokenBucket.refill emptied
    dsimp only
    split
    · exact hpos
    · rw [zero_add, mul_comm]
      exact min_lt_of_right_lt hshort
  rcases (emptied capacity refill_rate δ).try_acquire_cases e capacity with
    ⟨hinvalid, -⟩ | ⟨-, -, henough, -⟩ | ⟨-, -, -, decision, hdenied, -, hrun⟩
  · exact absurd ⟨hcap, le_refl capacity⟩ hinvalid
  · exact absurd hheld (not_lt.mpr henough)
  · exact ⟨decision, _, hdenied, hrun⟩

/-- A tenant without an entry spends a whole new bucket. -/
theorem check_whole (hcap : 1 ≤ capacity) (hrate : 0 < refill_rate) {clock : Readings}
    (hclock : clock.built ≤ clock.refilled) :
    Tenant.check ⟨capacity, refill_rate, idle_ttl, none⟩ clock capacity =
      (.ok ⟨true, pyInt 0, 0, capacity⟩, ⟨capacity, refill_rate, idle_ttl,
        some (emptied capacity refill_rate clock.refilled, clock.seen)⟩) := by
  have hbucket : Tenant.bucket ⟨capacity, refill_rate, idle_ttl, none⟩ clock.built =
      .ok ⟨capacity, refill_rate, capacity, clock.built⟩ := TokenBucket.new_ok hcap hrate _
  unfold Tenant.check
  rw [hbucket]
  dsimp only
  rw [try_acquire_whole hcap hrate hclock]

/-- What comes of a `check` of `key`. -/
theorem perform_check (h : l.Paired) {key : K} {clock : Readings} {cost : ℤ}
    {outcome : Except Exn Decision} {t : Tenant}
    (hcheck : (l.tenant key).check clock cost = (outcome, t)) :
    (l.perform (.check key cost clock)).1 = .checked (outcome.mapError .bucket) ∧
      (l.perform (.check key cost clock)).2.tenant key = t := by
  obtain ⟨hreply, htenant, -⟩ := check_tenant h clock key cost
  rw [hcheck] at hreply htenant
  exact ⟨congrArg LimiterReply.checked hreply, htenant⟩

theorem not_evictionsInvisible (k : K) (hcap : 1 ≤ capacity) (hrate : 0 < refill_rate)
    (hδ : 0 ≤ δ) (he : idle_ttl < e) (hearly : δ ≤ e)
    (hshort : refill_rate * (e - δ) < capacity) :
    ¬ EvictionsInvisible (new capacity refill_rate idle_ttl : RateLimiter K) δ := by
  intro hinvisible
  let l : RateLimiter K := new capacity refill_rate idle_ttl
  let l₁ := (l.perform (.check k capacity ⟨0, 0, δ⟩)).2
  let l₂ := (l₁.perform (.evict_idle e)).2
  have hpaired : l.Paired := paired_new capacity refill_rate idle_ttl
  have hpaired₁ : l₁.Paired := perform_paired hpaired _
  have hpaired₂ : l₂.Paired := perform_paired hpaired₁ _
  -- The first check empties the bucket, at `δ`, and is seen at 0.
  have hfirst : l₁.tenant k =
      ⟨capacity, refill_rate, idle_ttl, some (emptied capacity refill_rate δ, 0)⟩ :=
    (perform_check hpaired (check_whole hcap hrate hδ)).2
  -- Evicted in between, the key gets a new bucket and spends all of it;
  have hevicted : l₂.tenant k = ⟨capacity, refill_rate, idle_ttl, none⟩ := by
    refine ((evict_idle_tenant hpaired₁ e).2.1 k).trans ?_
    have hidle : (0 : ℚ) < e - idle_ttl := sub_pos.mpr he
    rw [hfirst]
    simp only [Tenant.evict_idle, Option.filter_some, hidle, not_true_eq_false, decide_false,
      Bool.false_eq_true, if_false]
  have hallowed : (l₂.perform (.check k capacity ⟨e, e, e⟩)).1 =
      .checked (.ok ⟨true, pyInt 0, 0, capacity⟩) := by
    have hcheck : (l₂.tenant k).check ⟨e, e, e⟩ capacity =
        (.ok ⟨true, pyInt 0, 0, capacity⟩, ⟨capacity, refill_rate, idle_ttl,
          some (emptied capacity refill_rate e, e)⟩) := by
      rw [hevicted]
      exact check_whole hcap hrate (le_refl e)
    exact (perform_check hpaired₂ hcheck).1
  -- left alone, it finds the bucket that has not filled up yet.
  obtain ⟨decision, bucket, hdecision, hacquire⟩ := try_acquire_emptied hcap hshort
  have hdenied : (l₁.perform (.check k capacity ⟨e, e, e⟩)).1 = .checked (.ok decision) := by
    have hcheck : (l₁.tenant k).check ⟨e, e, e⟩ capacity =
        (.ok decision, ⟨capacity, refill_rate, idle_ttl, some (bucket, e)⟩) := by
      rw [hfirst]
      unfold Tenant.check Tenant.bucket
      dsimp only
      rw [hacquire]
    exact (perform_check hpaired₁ hcheck).1
  have hsame := hinvisible
    [.check k capacity ⟨0, 0, δ⟩, .evict_idle e, .check k capacity ⟨e, e, e⟩]
    (by simp [LimiterCall.readings, hδ, hearly, hδ.trans hearly])
    (by simp [LimiterCall.lag, hδ])
  have hreplies : (l₂.perform (.check k capacity ⟨e, e, e⟩)).1 =
      (l₁.perform (.check k capacity ⟨e, e, e⟩)).1 :=
    (List.cons.inj (List.cons.inj hsame).2).1
  rw [hallowed, hdenied] at hreplies
  have hdecided : decision = ⟨true, pyInt 0, 0, capacity⟩ :=
    (Except.ok.inj (LimiterReply.checked.inj hreplies)).symm
  rw [hdecided] at hdecision
  cases hdecision

end Shows

/-- **When evictions are invisible.** For histories in which the clock never steps back
and a `check` takes at most `δ`: no history answers differently for the evictions in it
exactly when what accrues in `idle_ttl`, less `δ`, fills a bucket. With `δ = 0` every
call has a single reading. -/
theorem evictions_invisible_iff (k : K) (capacity : ℤ) (refill_rate idle_ttl δ : ℚ)
    (hcap : 1 ≤ capacity) (hrate : 0 < refill_rate) (hδ : 0 ≤ δ) :
    (∀ calls : List (LimiterCall K),
      (calls.flatMap LimiterCall.readings).Pairwise (· ≤ ·) →
      (∀ call ∈ calls, call.lag ≤ δ) →
      Lts.heard perform LimiterCall.isCheck (new capacity refill_rate idle_ttl) calls =
        Lts.heard perform LimiterCall.isCheck (new capacity refill_rate idle_ttl)
          (calls.filter LimiterCall.isCheck)) ↔
      (capacity : ℚ) ≤ refill_rate * (idle_ttl - δ) := by
  refine ⟨fun hinvisible => ?_, evictionsInvisible_of_fills hcap hrate⟩
  by_contra hshort
  have hpos : (0 : ℚ) < capacity := by exact_mod_cast hcap
  -- Late enough to evict, early enough to find the bucket short of full.
  have hgap : max idle_ttl δ < δ + capacity / refill_rate := by
    refine max_lt ?_ (lt_add_of_pos_right δ (div_pos hpos hrate))
    rw [← sub_lt_iff_lt_add', lt_div_iff₀ hrate, mul_comm]
    exact not_le.mp hshort
  obtain ⟨e, hlate, hearly⟩ := exists_between hgap
  refine not_evictionsInvisible k hcap hrate hδ ((le_max_left _ _).trans_lt hlate)
    ((le_max_right _ _).trans hlate.le) ?_ hinvisible
  rw [mul_comm, ← lt_div_iff₀ hrate]
  exact sub_lt_iff_lt_add'.mpr hearly

/-- A bucket of sixty at one a second, forgotten after a minute: a key that spends it all
and comes back after 61 seconds gets the same answers whether it was evicted or not. -/
theorem evictions_invisible_minute :
    Lts.heard perform LimiterCall.isCheck (new 60 1 60)
        [.check "tenant" 60 ⟨0, 0, 0⟩, .evict_idle 61, .check "tenant" 60 ⟨61, 61, 61⟩] =
      Lts.heard perform LimiterCall.isCheck (new 60 1 60)
        [.check "tenant" 60 ⟨0, 0, 0⟩, .check "tenant" 60 ⟨61, 61, 61⟩] :=
  (evictions_invisible_iff "tenant" 60 1 60 0 (by decide) one_pos le_rfl).mpr (by norm_num)
    [.check "tenant" 60 ⟨0, 0, 0⟩, .evict_idle 61, .check "tenant" 60 ⟨61, 61, 61⟩]
    (by decide +kernel) (by decide +kernel)

/-- A bucket of a hundred at ten a second, forgotten after five seconds: a key that spends
it all is granted as much again six seconds later, and is told to wait four more seconds
when nothing was evicted. -/
theorem eviction_shows :
    let calls : List (LimiterCall String) :=
      [.check "tenant" 100 ⟨0, 0, 0⟩, .evict_idle 6, .check "tenant" 100 ⟨6, 6, 6⟩]
    (calls.flatMap LimiterCall.readings).Pairwise (· ≤ ·) ∧ (∀ call ∈ calls, call.lag ≤ 0) ∧
      Lts.heard perform LimiterCall.isCheck (new 100 10 5) calls =
        [.checked (.ok ⟨true, 0, 0, 100⟩), .checked (.ok ⟨true, 0, 0, 100⟩)] ∧
      Lts.heard perform LimiterCall.isCheck (new 100 10 5) (calls.filter LimiterCall.isCheck) =
        [.checked (.ok ⟨true, 0, 0, 100⟩), .checked (.ok ⟨false, 60, 4, 100⟩)] := by
  decide +kernel

end RateLimiter

end Conductor
