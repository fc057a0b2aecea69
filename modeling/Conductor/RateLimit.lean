/-
`core/ratelimit.py`: the token bucket, and the buckets of all keys.

The clock is a parameter of every method that reads it: a call is given what the
clock says at each place where the source asks. Time and tokens are rationals, so
that the arithmetic is exact; the source computes them in floating point.

A method returns its outcome and the object it leaves behind. The two come apart
where a method raises: what it wrote before it raised stays written.
-/
import Mathlib.Algebra.Order.Ring.Rat
import Mathlib.Data.Rat.Floor
import Conductor.Lib.Tables
import Conductor.Values

set_option autoImplicit false

open Relational

namespace Conductor

/-- `int(q)`: towards zero. -/
def pyInt (q : ℚ) : ℤ := if 0 ≤ q then ⌊q⌋ else ⌈q⌉

/-- The outcome of one rate-limit check. -/
structure Decision where
  allowed : Bool
  remaining : ℤ
  retry_after : ℚ
  limit : ℤ
deriving DecidableEq

/-- `X-RateLimit-*` headers, plus `Retry-After` when throttled. -/
def Decision.headers (d : Decision) : OrderedDict String String :=
  let headers : OrderedDict String String :=
    OrderedDict.set (OrderedDict.set Table.empty "X-RateLimit-Limit" (toString d.limit))
      "X-RateLimit-Remaining" (toString d.remaining)
  if !d.allowed then
    OrderedDict.set headers "Retry-After" (toString (max 1 (pyInt (d.retry_after + 999 / 1000))))
  else headers

/-! ## The bucket -/

/-- A single lazily-refilled bucket. -/
structure TokenBucket where
  _capacity : ℤ
  _refill_rate : ℚ
  _tokens : ℚ
  _updated_at : ℚ
deriving DecidableEq

namespace TokenBucket

/-- `TokenBucket(capacity, refill_rate, clock)`, the clock at `now`. -/
def new (capacity : ℤ) (refill_rate now : ℚ) : Except Exn TokenBucket :=
  if capacity < 1 then .error (.ValueError "capacity must be at least 1")
  else if refill_rate ≤ 0 then .error (.ValueError "refill_rate must be positive")
  else .ok { _capacity := capacity, _refill_rate := refill_rate, _tokens := capacity,
             _updated_at := now }

def refill (b : TokenBucket) (now : ℚ) : TokenBucket :=
  let elapsed := now - b._updated_at
  if elapsed ≤ 0 then b
  else { b with
    _tokens := min (b._capacity : ℚ) (b._tokens + elapsed * b._refill_rate)
    _updated_at := now }

/-- Attempt to spend `cost` tokens. -/
def try_acquire (b : TokenBucket) (now : ℚ) (cost : ℤ) : Except Exn Decision × TokenBucket :=
  if cost < 1 then (.error (.ValueError "cost must be at least 1"), b)
  else if cost > b._capacity then
    (.error (.ValueError
      ("cost " ++ toString cost ++ " exceeds bucket capacity " ++ toString b._capacity)), b)
  else
    let b := b.refill now
    if b._tokens ≥ cost then
      let b := { b with _tokens := b._tokens - cost }
      (.ok ⟨true, pyInt b._tokens, 0, b._capacity⟩, b)
    else
      let deficit := cost - b._tokens
      (.ok ⟨false, pyInt b._tokens, deficit / b._refill_rate, b._capacity⟩, b)

def tokens (b : TokenBucket) (now : ℚ) : ℚ × TokenBucket :=
  let b := b.refill now
  (b._tokens, b)

end TokenBucket

/-! ## The buckets of all keys -/

/-- Per-key buckets with lazy creation and idle eviction. -/
structure RateLimiter (K : Type) where
  _capacity : ℤ
  _refill_rate : ℚ
  _idle_ttl : ℚ
  _buckets : OrderedDict K TokenBucket
  _last_seen : OrderedDict K ℚ

/-- What a method of the limiter raises: what a bucket raised, or `del` of a key that
is not there. -/
inductive LimiterError (K : Type) where
  | bucket (err : Exn)
  | KeyError (key : K)
deriving DecidableEq

/-- What the clock says while a `check` runs: to the constructor of a bucket, if one
is built, to `_last_seen`, and to `_refill`. -/
structure Readings where
  built : ℚ
  seen : ℚ
  refilled : ℚ
deriving DecidableEq

namespace RateLimiter

variable {K : Type} [DecidableEq K]

def new (capacity : ℤ) (refill_rate idle_ttl : ℚ) : RateLimiter K :=
  { _capacity := capacity, _refill_rate := refill_rate, _idle_ttl := idle_ttl,
    _buckets := Table.empty, _last_seen := Table.empty }

/-- The end of `check`, with the bucket at hand: it is spent from where it lies, in the
dictionary. -/
def spend (l : RateLimiter K) (clock : Readings) (key : K) (cost : ℤ) (bucket : TokenBucket) :
    Except (LimiterError K) Decision × RateLimiter K :=
  let l := { l with _last_seen := OrderedDict.set l._last_seen key clock.seen }
  let (outcome, bucket) := bucket.try_acquire clock.refilled cost
  (outcome.mapError .bucket, { l with _buckets := OrderedDict.set l._buckets key bucket })

def check (l : RateLimiter K) (clock : Readings) (key : K) (cost : ℤ) :
    Except (LimiterError K) Decision × RateLimiter K :=
  match OrderedDict.lookup l._buckets key with
  | some bucket => l.spend clock key cost bucket
  | none =>
      match TokenBucket.new l._capacity l._refill_rate clock.built with
      | .error err => (.error (.bucket err), l)
      | .ok bucket =>
          { l with _buckets := OrderedDict.set l._buckets key bucket }.spend clock key cost bucket

/-- The loop of `evict_idle` over the stale keys. -/
def evictLoop : RateLimiter K → List K → Except (LimiterError K) Unit × RateLimiter K
  | l, [] => (.ok (), l)
  | l, key :: stale =>
      if (OrderedDict.lookup l._buckets key).isNone then (.error (.KeyError key), l)
      else
        let l := { l with _buckets := OrderedDict.erase l._buckets key }
        if (OrderedDict.lookup l._last_seen key).isNone then (.error (.KeyError key), l)
        else evictLoop { l with _last_seen := OrderedDict.erase l._last_seen key } stale

/-- Drop buckets untouched for `idle_ttl`; how many were dropped. -/
def evict_idle (l : RateLimiter K) (now : ℚ) : Except (LimiterError K) ℕ × RateLimiter K :=
  let cutoff := now - l._idle_ttl
  let stale := (l._last_seen.rows.filter (fun item => item.2 < cutoff)).map Prod.fst
  let (outcome, l) := l.evictLoop stale
  (outcome.map (fun _ => stale.length), l)

end RateLimiter

end Conductor
