/-
What comes out of `build_policy`, against the spec that went in.

The policy has a field for every option of its class. A field that is given has the
value it is given, and the others have their defaults; that much the constructor does.
Whether the spec is followed then hangs on what came to the constructor: a spec that
spells the number of attempts in both ways has only one of them in the arguments, and a
`wire_name` passes the check of the keys and makes the constructor raise `TypeError`.
Every other spec is followed, or refused with `ValueError`.
-/
import Conductor.PolicyOptions

set_option autoImplicit false

namespace Conductor

/-! ## Policies, field by field -/

namespace RetryPolicy

/-- What a policy holds, under the names of its fields. -/
def fields : RetryPolicy → List (String × Json)
  | .NoRetry => []
  | .FixedDelay p => [("delay", .float p.delay), ("attempts", .int p.attempts)]
  | .ExponentialBackoff p =>
      [("base", .float p.base), ("factor", .float p.factor), ("attempts", .int p.attempts),
        ("max_delay", .float p.max_delay), ("jitter", .bool p.jitter)]

/-- What a policy of the same class holds that was given no option. -/
def defaults : RetryPolicy → List (String × Json)
  | .NoRetry => []
  | .FixedDelay _ => [("delay", .float 5), ("attempts", .int 3)]
  | .ExponentialBackoff _ =>
      [("base", .float 1), ("factor", .float 2), ("attempts", .int 5), ("max_delay", .float 300),
        ("jitter", .bool true)]

/-- The keys that the check lets by are the fields, and `wire_name`. -/
theorem policyFields_wire_name (p : RetryPolicy) :
    policyFields p.wire_name = some ("wire_name" :: p.fields.map Prod.fst) := by
  cases p with
  | NoRetry => rfl
  | FixedDelay p => rfl
  | ExponentialBackoff p => rfl

theorem nodup_fields (p : RetryPolicy) : (p.fields.map Prod.fst).Nodup := by
  cases p with
  | NoRetry => exact List.nodup_nil
  | FixedDelay p => exact (by decide : ["delay", "attempts"].Nodup)
  | ExponentialBackoff p =>
      exact (by decide : ["base", "factor", "attempts", "max_delay", "jitter"].Nodup)

/-- **The policy a spec asks for**: of the type it names, with every option of the spec
at its value, and every other option at its default. -/
structure Follows (p : RetryPolicy) (d : Dict) : Prop where
  named : p.wire_name = d.kind
  given : ∀ item ∈ d.items, item.1 ≠ "type" →
    ∃ value, (fieldOf item.1, value) ∈ p.fields ∧ item.2.NumEq value
  unset : ∀ f ∈ p.fields, (∀ item ∈ d.items, fieldOf item.1 ≠ f.1) → f ∈ p.defaults

/-- The same of the arguments of the constructor. -/
structure Takes (p : RetryPolicy) (kwargs : List (String × Json)) : Prop where
  given : ∀ f ∈ p.fields, ∀ value, argument kwargs f.1 = some value → value.NumEq f.2
  unset : ∀ f ∈ p.fields, argument kwargs f.1 = none → f ∈ p.defaults

end RetryPolicy

/-! ## Reading an argument -/

/-- A number read from an argument, or its default. -/
structure Reads (value : Option Json) (default q : ℚ) : Prop where
  unset : value = none → q = default
  given : ∀ v, value = some v → v.number = .ok q

/-- What the checks of the constructors ask of a number. -/
def Bound (name : String) (q : ℚ) : Prop :=
  if name = "attempts" ∨ name = "factor" then 1 ≤ q
  else if name = "delay" ∨ name = "base" then 0 ≤ q
  else if name = "max_delay" then 0 < q
  else True

/-- A value that passes the check of its field. -/
def WithinBound (name : String) (value : Json) : Prop := ∀ q, value.number = .ok q → Bound name q

theorem WithinBound.congr {name : String} {v w : Json} (h : WithinBound name w)
    (heq : v.NumEq w) : WithinBound name v := by
  intro q hv
  obtain ⟨q', hv', hw⟩ := heq
  rw [hv] at hv'
  cases hv'
  exact h q hw

theorem Reads.of_none (default : ℚ) : Reads none default default :=
  ⟨fun _ => rfl, fun _ hv => by cases hv⟩

theorem Reads.of_some {v : Json} {q : ℚ} (hq : v.number = .ok q) (default : ℚ) :
    Reads (some v) default q := by
  refine ⟨fun hnone => ?_, fun w hw => ?_⟩
  · cases hnone
  · cases hw
    exact hq

/-- A number that is out of bounds was given, when the default is not. -/
theorem Reads.out_of_bounds {kwargs : List (String × Json)} {name : String} {default q : ℚ}
    (h : Reads (argument kwargs name) default q) (hdefault : Bound name default)
    (hq : ¬ Bound name q) :
    ∃ name value, argument kwargs name = some value ∧ ¬ WithinBound name value := by
  cases hvalue : argument kwargs name with
  | none =>
      rw [h.unset hvalue] at hq
      exact absurd hdefault hq
  | some v => exact ⟨name, v, hvalue, fun hwithin => hq (hwithin q (h.given v hvalue))⟩

theorem kwarg_number_reads {kwargs : List (String × Json)} {name : String}
    (htyped : ∀ v, argument kwargs name = some v → v.isFloat = true) (default : ℚ) :
    ∃ q, kwarg kwargs name Json.number default = .ok q ∧
      Reads (argument kwargs name) default q := by
  rw [kwarg_eq]
  cases hvalue : argument kwargs name with
  | none => exact ⟨default, rfl, .of_none default⟩
  | some v =>
      have hfloat := htyped v hvalue
      have hnumber : ∃ q, v.number = .ok q := by
        cases v with
        | int n => exact ⟨_, rfl⟩
        | float q => exact ⟨_, rfl⟩
        | bool b => exact ⟨_, rfl⟩
        | _ => cases hfloat
      obtain ⟨q, hq⟩ := hnumber
      exact ⟨q, hq, .of_some hq default⟩

theorem kwarg_integer_reads {kwargs : List (String × Json)} {name : String}
    (htyped : ∀ v, argument kwargs name = some v → v.isInt = true) (default : ℤ) :
    ∃ n : ℤ, kwarg kwargs name Json.integer default = .ok n ∧
      Reads (argument kwargs name) default n := by
  rw [kwarg_eq]
  cases hvalue : argument kwargs name with
  | none => exact ⟨default, rfl, .of_none default⟩
  | some v =>
      have hint := htyped v hvalue
      have hnumber : ∃ n : ℤ, v.integer = .ok n ∧ v.number = .ok (n : ℚ) := by
        cases v with
        | int n => exact ⟨n, rfl, rfl⟩
        | bool b =>
            cases b with
            | true => exact ⟨1, rfl, rfl⟩
            | false => exact ⟨0, rfl, rfl⟩
        | _ => cases hint
      obtain ⟨n, hn, hq⟩ := hnumber
      exact ⟨n, hn, .of_some hq default⟩

/-- `True` and `False` as numbers. -/
def boolNumber (b : Bool) : ℚ := if b then 1 else 0

theorem boolNumber_inj {b c : Bool} (h : boolNumber b = boolNumber c) : b = c := by
  cases b with
  | true =>
      cases c with
      | true => rfl
      | false => exact absurd h (by decide)
  | false =>
      cases c with
      | true => exact absurd h (by decide)
      | false => rfl

theorem kwarg_truthy_reads {kwargs : List (String × Json)} {name : String}
    (htyped : ∀ v, argument kwargs name = some v → v.isBool = true) (default : Bool) :
    ∃ b, kwarg kwargs name (fun value => .ok value.truthy) default = .ok b ∧
      Reads (argument kwargs name) (boolNumber default) (boolNumber b) := by
  rw [kwarg_eq]
  cases hvalue : argument kwargs name with
  | none => exact ⟨default, rfl, .of_none _⟩
  | some v =>
      have hbool := htyped v hvalue
      cases v with
      | bool b => exact ⟨b, rfl, .of_some rfl _⟩
      | _ => cases hbool

/-! ## The constructors -/

theorem FixedDelay.new_error {delay : ℚ} {attempts : ℤ} (h : ¬ (1 ≤ attempts ∧ 0 ≤ delay)) :
    ∃ msg, FixedDelay.new delay attempts = .error (.ValueError msg) := by
  unfold FixedDelay.new validate
  by_cases hpos : attempts < 1
  · rw [dif_pos hpos]
    exact ⟨_, rfl⟩
  · rw [dif_neg hpos]
    by_cases hneg : delay < 0
    · rw [dif_pos hneg]
      exact ⟨_, rfl⟩
    · exact absurd ⟨not_lt.mp hpos, not_lt.mp hneg⟩ h

theorem ExponentialBackoff.new_error {base factor : ℚ} {attempts : ℤ} {max_delay : ℚ}
    (jitter : Bool) (h : ¬ (1 ≤ attempts ∧ 0 ≤ base ∧ 1 ≤ factor ∧ 0 < max_delay)) :
    ∃ msg, ExponentialBackoff.new base factor attempts max_delay jitter =
      .error (.ValueError msg) := by
  unfold ExponentialBackoff.new validate
  by_cases hpos : attempts < 1
  · rw [dif_pos hpos]
    exact ⟨_, rfl⟩
  · rw [dif_neg hpos]
    by_cases hneg : base < 0
    · rw [dif_pos hneg]
      exact ⟨_, rfl⟩
    · rw [dif_neg hneg]
      show ∃ msg, (if hf : factor < 1 then _ else if hm : max_delay ≤ 0 then _ else _) = _
      by_cases hshrinks : factor < 1
      · rw [dif_pos hshrinks]
        exact ⟨_, rfl⟩
      · rw [dif_neg hshrinks]
        by_cases hmax : max_delay ≤ 0
        · rw [dif_pos hmax]
          exact ⟨_, rfl⟩
        · exact absurd ⟨not_lt.mp hpos, not_lt.mp hneg, not_lt.mp hshrinks, not_le.mp hmax⟩ h

/-- What a constructor does with well-typed arguments: it takes them, or refuses one that
is out of bounds. -/
def Constructs (kind : String) (kwargs : List (String × Json)) : Prop :=
  (∃ p, constructPolicy kind kwargs = .ok p ∧ p.wire_name = kind ∧ p.Takes kwargs) ∨
    (∃ msg, constructPolicy kind kwargs = .error (.ValueError msg)) ∧
      ∃ name value, argument kwargs name = some value ∧ ¬ WithinBound name value

section Constructors

variable {kwargs : List (String × Json)}

theorem constructs_none (hwire : kwargs.any (fun item => item.1 = "wire_name") = false) :
    Constructs "none" kwargs := by
  refine .inl ⟨.NoRetry, ?_, rfl, ⟨fun f hf => ?_, fun f hf => ?_⟩⟩
  · unfold constructPolicy
    rw [hwire]
    rfl
  · exact absurd hf List.not_mem_nil
  · exact absurd hf List.not_mem_nil

theorem constructs_fixed (hwire : kwargs.any (fun item => item.1 = "wire_name") = false)
    (htyped : ∀ name v, argument kwargs name = some v → WellTyped name v = true) :
    Constructs "fixed" kwargs := by
  obtain ⟨n, hn, hattempts⟩ := kwarg_integer_reads (htyped "attempts") 3
  obtain ⟨q, hq, hdelay⟩ := kwarg_number_reads (htyped "delay") 5
  have hrun := constructPolicy_fixed_eq hwire hn hq
  by_cases hvalid : 1 ≤ n ∧ 0 ≤ q
  · rw [FixedDelay.new_ok hvalid.1 hvalid.2] at hrun
    refine .inl ⟨_, hrun, rfl, ?_, ?_⟩
    · intro f hf value hvalue
      simp only [RetryPolicy.fields, List.mem_cons, List.not_mem_nil, or_false] at hf
      rcases hf with rfl | rfl
      · exact ⟨q, hdelay.given value hvalue, rfl⟩
      · exact ⟨n, hattempts.given value hvalue, rfl⟩
    · intro f hf hvalue
      show f ∈ [("delay", Json.float 5), ("attempts", Json.int 3)]
      simp only [RetryPolicy.fields, List.mem_cons, List.not_mem_nil, or_false] at hf
      rcases hf with rfl | rfl
      · rw [hdelay.unset hvalue]
        simp
      · have hthree : n = 3 := by exact_mod_cast hattempts.unset hvalue
        rw [hthree]
        simp
  · refine .inr ⟨?_, ?_⟩
    · obtain ⟨msg, hmsg⟩ := FixedDelay.new_error hvalid
      rw [hmsg] at hrun
      exact ⟨msg, hrun⟩
    -- The defaults are in bounds, so what is not was given.
    · rcases not_and_or.mp hvalid with hpos | hnonneg
      · exact hattempts.out_of_bounds (by norm_num [Bound])
          (by rw [Bound, if_pos (.inl rfl)]; exact_mod_cast hpos)
      · exact hdelay.out_of_bounds (by norm_num [Bound])
          (by simpa [Bound] using hnonneg)

theorem constructs_exponential
    (hwire : kwargs.any (fun item => item.1 = "wire_name") = false)
    (htyped : ∀ name v, argument kwargs name = some v → WellTyped name v = true) :
    Constructs "exponential" kwargs := by
  obtain ⟨n, hn, hattempts⟩ := kwarg_integer_reads (htyped "attempts") 5
  obtain ⟨q, hq, hbase⟩ := kwarg_number_reads (htyped "base") 1
  obtain ⟨r, hr, hfactor⟩ := kwarg_number_reads (htyped "factor") 2
  obtain ⟨m, hm, hmax⟩ := kwarg_number_reads (htyped "max_delay") 300
  obtain ⟨b, hb, hjitter⟩ := kwarg_truthy_reads (htyped "jitter") true
  have hrun := constructPolicy_exponential_eq hwire hn hq hr hm hb
  by_cases hvalid : 1 ≤ n ∧ 0 ≤ q ∧ 1 ≤ r ∧ 0 < m
  · rw [ExponentialBackoff.new_ok b hvalid.1 hvalid.2.1 hvalid.2.2.1 hvalid.2.2.2] at hrun
    refine .inl ⟨_, hrun, rfl, ?_, ?_⟩
    · intro f hf value hvalue
      simp only [RetryPolicy.fields, List.mem_cons, List.not_mem_nil, or_false] at hf
      rcases hf with rfl | rfl | rfl | rfl | rfl
      · exact ⟨q, hbase.given value hvalue, rfl⟩
      · exact ⟨r, hfactor.given value hvalue, rfl⟩
      · exact ⟨n, hattempts.given value hvalue, rfl⟩
      · exact ⟨m, hmax.given value hvalue, rfl⟩
      · exact ⟨boolNumber b, hjitter.given value hvalue, rfl⟩
    · intro f hf hvalue
      show f ∈ [("base", Json.float 1), ("factor", Json.float 2), ("attempts", Json.int 5),
        ("max_delay", Json.float 300), ("jitter", Json.bool true)]
      simp only [RetryPolicy.fields, List.mem_cons, List.not_mem_nil, or_false] at hf
      rcases hf with rfl | rfl | rfl | rfl | rfl
      · rw [hbase.unset hvalue]
        simp
      · rw [hfactor.unset hvalue]
        simp
      · have hfive : n = 5 := by exact_mod_cast hattempts.unset hvalue
        rw [hfive]
        simp
      · rw [hmax.unset hvalue]
        simp
      · rw [boolNumber_inj (hjitter.unset hvalue)]
        simp
  · refine .inr ⟨?_, ?_⟩
    · obtain ⟨msg, hmsg⟩ := ExponentialBackoff.new_error b hvalid
      rw [hmsg] at hrun
      exact ⟨msg, hrun⟩
    · simp only [not_and_or] at hvalid
      rcases hvalid with hpos | hnonneg | hge | hmaxpos
      · exact hattempts.out_of_bounds (by norm_num [Bound])
          (by rw [Bound, if_pos (.inl rfl)]; exact_mod_cast hpos)
      · exact hbase.out_of_bounds (by norm_num [Bound])
          (by simpa [Bound] using hnonneg)
      · exact hfactor.out_of_bounds (by norm_num [Bound])
          (by simpa [Bound] using hge)
      · exact hmax.out_of_bounds (by norm_num [Bound])
          (by simpa [Bound] using hmaxpos)

/-- **The constructor of every policy** takes its arguments, or refuses one of them. -/
theorem constructs {kind : String} {allowed : List String}
    (hallowed : policyFields kind = some allowed)
    (hwire : kwargs.any (fun item => item.1 = "wire_name") = false)
    (htyped : ∀ name v, argument kwargs name = some v → WellTyped name v = true) :
    Constructs kind kwargs := by
  unfold policyFields at hallowed
  split at hallowed
  · rename_i hkind
    rw [hkind]
    exact constructs_none hwire
  · split at hallowed
    · rename_i hkind
      rw [hkind]
      exact constructs_fixed hwire htyped
    · split at hallowed
      · rename_i hkind
        rw [hkind]
        exact constructs_exponential hwire htyped
      · cases hallowed

end Constructors

/-! ## Specs that are misread -/

namespace Dict

/-- Both spellings of the number of attempts, with different values. -/
def Contradicts (d : Dict) : Prop :=
  ∃ given counted, d.get "attempts" = some given ∧ d.get "max_attempts" = some counted ∧
    ¬ given.NumEq counted

/-- All options but an `attempts` pass the check of their field. -/
def InBounds (d : Dict) : Prop :=
  ∀ item ∈ d.items, item.1 ≠ "attempts" → WithinBound (fieldOf item.1) item.2

/-- All keys pass the check against the fields of the policy, and `wire_name` is one of
them, or the spec contradicts itself and would otherwise be accepted. -/
def Misread (d : Dict) : Prop :=
  ∃ allowed, policyFields d.kind = some allowed ∧
    (∀ item ∈ d.items, item.1 ≠ "type" → fieldOf item.1 ∈ allowed) ∧
    ("wire_name" ∈ d.items.map Prod.fst ∨ d.Contradicts ∧ d.InBounds)

theorem eq_wire_name_of_fieldOf {key : String} (h : fieldOf key = "wire_name") :
    key = "wire_name" := by
  by_cases hmax : key = "max_attempts"
  · rw [fieldOf, if_pos hmax] at h
    exact absurd h (by decide)
  · rw [fieldOf, if_neg hmax] at h
    exact h

theorem wire_name_mem {d : Dict} :
    "wire_name" ∈ d.kwargs.map Prod.fst ↔ "wire_name" ∈ d.items.map Prod.fst := by
  rw [mem_kwargs]
  constructor
  · rintro ⟨item, hitem, -, hfield⟩
    exact List.mem_map.mpr ⟨item, hitem, eq_wire_name_of_fieldOf hfield⟩
  · intro hmem
    obtain ⟨item, hitem, hkey⟩ := List.mem_map.mp hmem
    refine ⟨item, hitem, ?_, ?_⟩
    · rw [hkey]
      decide
    · rw [hkey]
      decide

/-- The arguments of a typed spec are typed. -/
theorem Typed.argument {d : Dict} (h : d.Typed) (name : String) (v : Json)
    (hv : argument d.kwargs name = some v) : WellTyped name v = true := by
  obtain ⟨key, hitem, htype, rfl, -⟩ := of_argument_kwargs hv
  have hkey := h _ hitem
  by_cases hmax : key = "max_attempts"
  · subst hmax
    exact hkey
  · rw [fieldOf, if_neg hmax]
    exact hkey

/-- What stands in the way of a value that is out of bounds. -/
theorem InBounds.argument {d : Dict} (h : d.InBounds) (hmax : (d.get "max_attempts").isSome = true)
    {name : String} {v : Json} (hv : argument d.kwargs name = some v) : WithinBound name v := by
  obtain ⟨key, hitem, -, rfl, hreplaced⟩ := of_argument_kwargs hv
  refine h _ hitem (fun hattempts => ?_)
  rw [hreplaced hattempts] at hmax
  cases hmax

end Dict

namespace RetryPolicy

variable {p : RetryPolicy} {d : Dict}

/-- The number of attempts is the field of its name. -/
theorem eq_of_attempts_mem {value : Json} (h : ("attempts", value) ∈ p.fields) :
    value = .int p.max_attempts := by
  cases p with
  | NoRetry => exact absurd h List.not_mem_nil
  | FixedDelay p =>
      simp only [fields, List.mem_cons, Prod.mk.injEq, String.reduceEq, false_and, true_and,
        List.not_mem_nil, or_false, false_or] at h
      exact h
  | ExponentialBackoff p =>
      simp only [fields, List.mem_cons, Prod.mk.injEq, String.reduceEq, false_and, true_and,
        List.not_mem_nil, or_false, false_or] at h
      exact h

theorem fields_within (p : RetryPolicy) : ∀ f ∈ p.fields, WithinBound f.1 f.2 := by
  intro f hf q hq
  cases p with
  | NoRetry => exact absurd hf List.not_mem_nil
  | FixedDelay p =>
      have hattempts : (1 : ℚ) ≤ p.attempts := by exact_mod_cast p.attempts_pos
      simp only [fields, List.mem_cons, List.not_mem_nil, or_false] at hf
      rcases hf with rfl | rfl
      · cases hq
        simpa [Bound] using p.delay_nonneg
      · cases hq
        simpa [Bound] using hattempts
  | ExponentialBackoff p =>
      have hattempts : (1 : ℚ) ≤ p.attempts := by exact_mod_cast p.attempts_pos
      simp only [fields, List.mem_cons, List.not_mem_nil, or_false] at hf
      rcases hf with rfl | rfl | rfl | rfl | rfl
      · cases hq
        simpa [Bound] using p.base_nonneg
      · cases hq
        simpa [Bound] using p.factor_ge
      · cases hq
        simpa [Bound] using hattempts
      · cases hq
        simpa [Bound] using p.max_delay_pos
      · simp [Bound]

/-- The field of a known key. -/
theorem exists_field (hkind : p.wire_name = d.kind) {allowed : List String}
    (hallowed : policyFields d.kind = some allowed)
    (hwire : "wire_name" ∉ d.items.map Prod.fst) {item : String × Json} (hitem : item ∈ d.items)
    (hknown : fieldOf item.1 ∈ allowed) : ∃ value, (fieldOf item.1, value) ∈ p.fields := by
  rw [← hkind, policyFields_wire_name] at hallowed
  cases hallowed
  rcases List.mem_cons.mp hknown with hname | hname
  · exact absurd (List.mem_map.mpr ⟨item, hitem, Dict.eq_wire_name_of_fieldOf hname⟩) hwire
  · obtain ⟨f, hf, hfield⟩ := List.mem_map.mp hname
    exact ⟨f.2, by rw [← hfield]; exact hf⟩

/-- **A policy that took the arguments of a spec follows it**, if the spec does not
contradict itself. -/
theorem Takes.follows_iff (h : p.Takes d.kwargs) (hkind : p.wire_name = d.kind)
    (hfield : ∀ item ∈ d.items, item.1 ≠ "type" → ∃ value, (fieldOf item.1, value) ∈ p.fields) :
    p.Follows d ↔ ¬ d.Contradicts := by
  constructor
  · rintro hfollows ⟨given, counted, hgiven, hcounted, hdiffer⟩
    obtain ⟨w, hw, heq⟩ := hfollows.given _ (Dict.get_eq_some.mp hgiven)
      (by decide : "attempts" ≠ "type")
    obtain ⟨w', hw', heq'⟩ := hfollows.given _ (Dict.get_eq_some.mp hcounted)
      (by decide : "max_attempts" ≠ "type")
    -- Both spellings set the one field.
    have hsame : w = w' := by
      have hone := (argument_eq_some p.nodup_fields).mpr hw
      have hother := (argument_eq_some p.nodup_fields).mpr hw'
      exact Option.some.inj (hone.symm.trans hother)
    rw [← hsame] at heq'
    exact hdiffer (heq.trans heq'.symm)
  · intro hagrees
    refine ⟨hkind, fun item hitem htype => ?_, fun f hf hunset => ?_⟩
    · obtain ⟨value, hvalue⟩ := hfield item hitem htype
      obtain ⟨counted, hcounted, hplain, hreplaced⟩ := Dict.argument_fieldOf hitem htype
      have htaken := h.given _ hvalue counted hcounted
      refine ⟨value, hvalue, ?_⟩
      cases hmax : d.get "max_attempts" with
      | none =>
          rw [← hplain (.inr hmax)]
          exact htaken
      | some other =>
          by_cases hattempts : item.1 = "attempts"
          · have hgiven : d.get "attempts" = some item.2 := by
              rw [Dict.get_eq_some, ← hattempts]
              exact hitem
            have hequal : item.2.NumEq other :=
              not_not.mp (fun hdiffer => hagrees ⟨item.2, other, hgiven, hmax, hdiffer⟩)
            rw [hreplaced hattempts other hmax] at htaken
            exact hequal.trans htaken
          · rw [← hplain (.inl hattempts)]
            exact htaken
    · refine h.unset f hf (Option.eq_none_iff_forall_ne_some.mpr (fun v hv => ?_))
      obtain ⟨key, hitem, -, hname, -⟩ := Dict.of_argument_kwargs hv
      exact hunset _ hitem hname

end RetryPolicy

/-! ## `build_policy` -/

/-- The spec is followed or refused: `build_policy` returns the policy it asks for, or
raises `ValueError`. -/
def Heeds (spec : Option Dict) : Prop :=
  (∃ p, build_policy spec = .ok p ∧ p.Follows (spec.getD Dict.empty)) ∨
    ∃ msg, build_policy spec = .error (.ValueError msg)

/-- `None` and `{}` are read alike. -/
theorem build_policy_getD (spec : Option Dict) :
    build_policy spec = build_policy (some (spec.getD Dict.empty)) := by
  cases spec with
  | none => rfl
  | some d => rfl

/-- What `build_policy` does with a spec that is not empty. -/
theorem build_policy_of_items {d : Dict} (hitems : d.items ≠ []) :
    (policyFields d.kind = none ∧ ∃ msg, build_policy (some d) = .error (.ValueError msg)) ∨
    ∃ allowed, policyFields d.kind = some allowed ∧
      (((∃ name ∈ d.kwargs.map Prod.fst, name ∉ allowed) ∧
          ∃ msg, build_policy (some d) = .error (.ValueError msg)) ∨
        (∀ name ∈ d.kwargs.map Prod.fst, name ∈ allowed) ∧
          build_policy (some d) = constructPolicy d.kind d.kwargs) := by
  have hsome : ¬ d.items.isEmpty = true := fun hnil => hitems (List.isEmpty_iff.mp hnil)
  have hkind : (((d.items.find? (fun item => item.1 = "type")).map Prod.snd).getD
      (.str "exponential")).pyStr.toLower = d.kind := rfl
  cases hfields : policyFields d.kind with
  | none =>
      refine .inl ⟨rfl, ?_⟩
      unfold build_policy
      dsimp only [Option.map_some, Option.getD_some]
      rw [if_neg hsome, hkind, hfields]
      exact ⟨_, rfl⟩
  | some allowed =>
      refine .inr ⟨allowed, rfl, ?_⟩
      have hrun : build_policy (some d) =
          if ((d.kwargs.map Prod.fst).filter (· ∉ allowed)).isEmpty then
            constructPolicy d.kind d.kwargs
          else
            .error (.ValueError ("unknown options for " ++ pyRepr d.kind ++ " policy: "
              ++ pyReprList (((d.kwargs.map Prod.fst).filter (· ∉ allowed)).insertionSort
                (· ≤ ·)))) := by
        unfold build_policy
        dsimp only [Option.map_some, Option.getD_some]
        rw [if_neg hsome, hkind, hfields]
        rfl
      rw [hrun]
      by_cases hknown : ∀ name ∈ d.kwargs.map Prod.fst, name ∈ allowed
      · refine .inr ⟨hknown, if_pos (List.isEmpty_iff.mpr (List.filter_eq_nil_iff.mpr ?_))⟩
        intro name hname hunknown
        exact of_decide_eq_true hunknown (hknown name hname)
      · push Not at hknown
        obtain ⟨name, hname, hunknown⟩ := hknown
        refine .inl ⟨⟨name, hname, hunknown⟩, _, if_neg (fun hempty => ?_)⟩
        exact List.filter_eq_nil_iff.mp (List.isEmpty_iff.mp hempty) name hname
          (decide_eq_true hunknown)

/-- An empty spec asks for the default policy, and gets it. -/
theorem follows_default {d : Dict} (hitems : d.items = []) :
    (RetryPolicy.ExponentialBackoff ExponentialBackoff.default).Follows d := by
  refine ⟨?_, fun item hitem => ?_, fun f hf _ => hf⟩
  · unfold Dict.kind Dict.get
    rw [hitems]
    exact (by decide +kernel : "exponential" = "exponential".toLower)
  · rw [hitems] at hitem
    exact absurd hitem List.not_mem_nil

theorem not_misread_of_nil {d : Dict} (hitems : d.items = []) : ¬ d.Misread := by
  rintro ⟨allowed, -, -, hwire | ⟨⟨given, counted, hgiven, -, -⟩, -⟩⟩
  · rw [hitems] at hwire
    exact absurd hwire List.not_mem_nil
  · unfold Dict.get at hgiven
    rw [hitems] at hgiven
    cases hgiven

/-- A `wire_name` among the arguments is not one the constructor expects. -/
theorem constructPolicy_wire_name (kind : String) {kwargs : List (String × Json)}
    (hwire : "wire_name" ∈ kwargs.map Prod.fst) :
    constructPolicy kind kwargs =
      .error (.TypeError "__init__() got an unexpected keyword argument 'wire_name'") := by
  obtain ⟨item, hitem, hkey⟩ := List.mem_map.mp hwire
  exact if_pos (List.any_eq_true.mpr ⟨item, hitem, decide_eq_true hkey⟩)

/-- A spec whose keys are all known, `wire_name` not among them. -/
theorem heeds_of_known {d : Dict} (htyped : d.Typed) {allowed : List String}
    (hallowed : policyFields d.kind = some allowed)
    (hknown : ∀ item ∈ d.items, item.1 ≠ "type" → fieldOf item.1 ∈ allowed)
    (hwire : "wire_name" ∉ d.items.map Prod.fst)
    (hrun : build_policy (some d) = constructPolicy d.kind d.kwargs) :
    Heeds (some d) ↔ ¬ (d.Contradicts ∧ d.InBounds) := by
  have hargument : d.kwargs.any (fun item => item.1 = "wire_name") = false := by
    refine List.any_eq_false.mpr (fun item hitem hkey => hwire (Dict.wire_name_mem.mp ?_))
    exact List.mem_map.mpr ⟨item, hitem, of_decide_eq_true hkey⟩
  unfold Heeds
  rw [hrun]
  rcases constructs hallowed hargument htyped.argument with
    ⟨p, hp, hkind, htakes⟩ | ⟨⟨msg, hmsg⟩, name, v, hv, hout⟩
  · -- The policy is there, so every value that counts is in bounds.
    have hfield : ∀ item ∈ d.items, item.1 ≠ "type" →
        ∃ value, (fieldOf item.1, value) ∈ p.fields := fun item hitem htype =>
      p.exists_field hkind hallowed hwire hitem (hknown item hitem htype)
    have hbounds : d.InBounds := by
      intro item hitem hattempts
      by_cases htype : item.1 = "type"
      · intro q _
        rw [htype]
        simp [Bound, fieldOf]
      · obtain ⟨counted, hcounted, hplain, -⟩ := Dict.argument_fieldOf hitem htype
        obtain ⟨value, hvalue⟩ := hfield item hitem htype
        rw [← hplain (.inl hattempts)]
        exact (p.fields_within _ hvalue).congr (htakes.given _ hvalue counted hcounted)
    rw [and_iff_left hbounds, ← htakes.follows_iff hkind hfield, hp]
    constructor
    · rintro (⟨p', hp', hfollows⟩ | ⟨msg, hmsg⟩)
      · cases hp'
        exact hfollows
      · cases hmsg
    · intro hfollows
      exact .inl ⟨p, rfl, hfollows⟩
  · refine iff_of_true (.inr ⟨msg, hmsg⟩) ?_
    rintro ⟨⟨given, counted, -, hcounted, -⟩, hbounds⟩
    refine hout (hbounds.argument ?_ hv)
    rw [hcounted]
    rfl

/-- **`build_policy` ignores nothing**, if and only if the spec is not misread: it raises
no other exception than `ValueError`, and a policy that it returns is the one that the
spec asks for. -/
theorem build_policy_heeds_iff (spec : Option Dict) (htyped : (spec.getD Dict.empty).Typed) :
    Heeds spec ↔ ¬ (spec.getD Dict.empty).Misread := by
  have hsame : Heeds spec ↔ Heeds (some (spec.getD Dict.empty)) := by
    unfold Heeds
    rw [build_policy_getD]
    rfl
  rw [hsame]
  generalize spec.getD Dict.empty = d at htyped ⊢
  by_cases hitems : d.items = []
  · refine iff_of_true (.inl ⟨_, ?_, follows_default hitems⟩) (not_misread_of_nil hitems)
    exact if_pos (List.isEmpty_iff.mpr hitems)
  -- No such policy, a key it does not know, or on to the constructor.
  rcases build_policy_of_items hitems with
    ⟨hnone, hrefused⟩ | ⟨allowed, hallowed, ⟨⟨name, hname, hunknown⟩, hrefused⟩ | ⟨hknown, hrun⟩⟩
  · refine iff_of_true (.inr hrefused) ?_
    rintro ⟨allowed, hallowed, -⟩
    rw [hnone] at hallowed
    cases hallowed
  · refine iff_of_true (.inr hrefused) ?_
    rintro ⟨allowed', hallowed', hall, -⟩
    rw [hallowed] at hallowed'
    cases hallowed'
    obtain ⟨item, hitem, htype, hfield⟩ := Dict.mem_kwargs.mp hname
    rw [← hfield] at hunknown
    exact hunknown (hall item hitem htype)
  · have hall : ∀ item ∈ d.items, item.1 ≠ "type" → fieldOf item.1 ∈ allowed :=
      fun item hitem htype => hknown _ (Dict.mem_kwargs.mpr ⟨item, hitem, htype, rfl⟩)
    have hmisread : d.Misread ↔
        "wire_name" ∈ d.items.map Prod.fst ∨ d.Contradicts ∧ d.InBounds := by
      constructor
      · rintro ⟨-, -, -, h⟩
        exact h
      · intro h
        exact ⟨allowed, hallowed, hall, h⟩
    rw [hmisread]
    by_cases hwire : "wire_name" ∈ d.items.map Prod.fst
    -- A `wire_name` is let by, and the constructor raises `TypeError`.
    · refine iff_of_false ?_ (not_not.mpr (.inl hwire))
      have herror := constructPolicy_wire_name d.kind (Dict.wire_name_mem.mpr hwire)
      unfold Heeds
      rw [hrun, herror]
      rintro (⟨p, hp, -⟩ | ⟨msg, hmsg⟩)
      · cases hp
      · cases hmsg
    · rw [or_iff_right hwire]
      exact heeds_of_known htyped hallowed hall hwire hrun

/-- `{"type": "fixed", "delay": 2.0, "max_attempts": 7}` -/
def fixedSpec : Dict :=
  ⟨[("type", .str "fixed"), ("delay", .float 2), ("max_attempts", .int 7)], by decide⟩

/-- The API's spelling of `max_attempts` is heeded. -/
theorem build_policy_heeds_iff_fixed : Heeds (some fixedSpec) := by
  refine (build_policy_heeds_iff (some fixedSpec) (by decide)).mpr ?_
  rintro ⟨-, -, -, hwire | ⟨⟨given, counted, hgiven, -⟩, -⟩⟩
  · revert hwire
    decide
  · have hnone : fixedSpec.get "attempts" = none := by rfl
    change fixedSpec.get "attempts" = some given at hgiven
    rw [hnone] at hgiven
    cases hgiven

/-- `{"type": "fixed", "attempts": 5, "max_attempts": 2}` -/
def twoSpellings : Dict :=
  ⟨[("type", .str "fixed"), ("attempts", .int 5), ("max_attempts", .int 2)], by decide⟩

/-- `{"type": "none", "wire_name": "none"}` -/
def wireNameSpec : Dict :=
  ⟨[("type", .str "none"), ("wire_name", .str "none")], by decide⟩

/-- Of two spellings one is dropped, and `wire_name` raises `TypeError`. -/
theorem spec_not_heeded :
    twoSpellings.Typed ∧ ¬ Heeds (some twoSpellings) ∧
      (build_policy (some twoSpellings)).map RetryPolicy.max_attempts = .ok 2 ∧
    wireNameSpec.Typed ∧ ¬ Heeds (some wireNameSpec) ∧
      (build_policy (some wireNameSpec)).map RetryPolicy.max_attempts =
        .error (.TypeError "__init__() got an unexpected keyword argument 'wire_name'") := by
  have hdropped : (build_policy (some twoSpellings)).map RetryPolicy.max_attempts = .ok 2 := by
    decide +kernel
  have hraised : (build_policy (some wireNameSpec)).map RetryPolicy.max_attempts =
      .error (.TypeError "__init__() got an unexpected keyword argument 'wire_name'") := by
    decide +kernel
  refine ⟨by decide, ?_, hdropped, by decide, ?_, hraised⟩
  · rintro (⟨p, hp, hfollows⟩ | ⟨msg, hmsg⟩)
    · obtain ⟨value, hvalue, q, hfive, htwo⟩ :=
        hfollows.given ("attempts", .int 5) (List.mem_cons_of_mem _ List.mem_cons_self)
          (by decide : "attempts" ≠ "type")
      rw [hp] at hdropped
      have hcount : p.max_attempts = 2 := Except.ok.inj hdropped
      rw [RetryPolicy.eq_of_attempts_mem hvalue, hcount, ← hfive] at htwo
      exact absurd (Except.ok.inj htwo) (by decide)
    · rw [hmsg] at hdropped
      cases hdropped
  · rintro (⟨p, hp, -⟩ | ⟨msg, hmsg⟩)
    · rw [hp] at hraised
      cases hraised
    · rw [hmsg] at hraised
      cases hraised

end Conductor
