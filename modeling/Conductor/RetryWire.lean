/-
Retry policies on the wire: `describe`, which writes a policy down, and
`RetryPolicySpec`, in which a client asks for one. Both end as a `dict` with a `type`,
a `max_attempts` and the options of the policy, and both are read by `build_policy`.

A `RetryPolicySpec` that its field validation would refuse cannot be built: the bounds
are fields.

`build_policy` renames `max_attempts` to `attempts` before it asks whether the class
has the option. `NoRetry` has none, and both writers put `max_attempts` there for
every type.
-/
import Conductor.Retry

set_option autoImplicit false

namespace Conductor

/-! ## Writing a policy down -/

namespace RetryPolicy

def wire_name : RetryPolicy → String
  | .NoRetry => "none"
  | .FixedDelay _ => "fixed"
  | .ExponentialBackoff _ => "exponential"

theorem wire_name_lower {p : RetryPolicy} : p.wire_name.toLower = p.wire_name := by
  cases p with
  | NoRetry => exact (by decide +kernel : "none".toLower = "none")
  | FixedDelay p => exact (by decide +kernel : "fixed".toLower = "fixed")
  | ExponentialBackoff p => exact (by decide +kernel : "exponential".toLower = "exponential")

/-- `_options`. -/
def options : RetryPolicy → List (String × Json)
  | .NoRetry => []
  | .FixedDelay p => [("delay", .float p.delay)]
  | .ExponentialBackoff p =>
      [("base", .float p.base), ("factor", .float p.factor), ("max_delay", .float p.max_delay),
        ("jitter", .bool p.jitter)]

/-- Serialisable form, persisted with the task and echoed by the API. -/
def describe (p : RetryPolicy) : Dict where
  items := ("type", .str p.wire_name) :: ("max_attempts", .int p.max_attempts) :: p.options
  nodup := by
    cases p with
    | NoRetry => exact (by decide : ["type", "max_attempts"].Nodup)
    | FixedDelay p => exact (by decide : ["type", "max_attempts", "delay"].Nodup)
    | ExponentialBackoff p =>
        exact (by decide : ["type", "max_attempts", "base", "factor", "max_delay",
          "jitter"].Nodup)

end RetryPolicy

/-! ## Asking for a policy -/

/-- `Literal["none", "fixed", "exponential"]`. -/
inductive PolicyType where
  | none
  | fixed
  | exponential
deriving DecidableEq

def PolicyType.wire_name : PolicyType → String
  | .none => "none"
  | .fixed => "fixed"
  | .exponential => "exponential"

theorem PolicyType.wire_name_lower {t : PolicyType} : t.wire_name.toLower = t.wire_name := by
  cases t with
  | none => exact (by decide +kernel : "none".toLower = "none")
  | fixed => exact (by decide +kernel : "fixed".toLower = "fixed")
  | exponential => exact (by decide +kernel : "exponential".toLower = "exponential")

/-- Retry configuration, validated before it can reach a worker. -/
structure RetryPolicySpec where
  type : PolicyType
  max_attempts : ℤ
  delay : Option ℚ
  base : Option ℚ
  factor : Option ℚ
  max_delay : Option ℚ
  jitter : Option Bool
  max_attempts_bounds : 1 ≤ max_attempts ∧ max_attempts ≤ 100
  delay_bounds : ∀ d ∈ delay, 0 ≤ d ∧ d ≤ 86400
  base_bounds : ∀ b ∈ base, 0 < b ∧ b ≤ 3600
  factor_bounds : ∀ f ∈ factor, 1 ≤ f ∧ f ≤ 10
  max_delay_bounds : ∀ m ∈ max_delay, 0 < m ∧ m ≤ 86400

/-- The options of a list that are set. -/
def setOptions (options : List (String × Option Json)) : List (String × Json) :=
  options.filterMap (fun o => o.2.map (fun value => (o.1, value)))

theorem setOptions_names (options : List (String × Option Json)) :
    ((setOptions options).map Prod.fst).Sublist (options.map Prod.fst) := by
  induction options with
  | nil => exact List.Sublist.slnil
  | cons o rest ih =>
      obtain ⟨name, value⟩ := o
      cases value with
      | none => exact ih.cons name
      | some value => exact ih.cons_cons name

namespace RetryPolicySpec

/-- `RetryPolicySpec()`. -/
def default : RetryPolicySpec where
  type := .exponential
  max_attempts := 5
  delay := none
  base := none
  factor := none
  max_delay := none
  jitter := none
  max_attempts_bounds := by decide
  delay_bounds := fun _ hd => by cases hd
  base_bounds := fun _ hb => by cases hb
  factor_bounds := fun _ hf => by cases hf
  max_delay_bounds := fun _ hm => by cases hm

/-- `model_dump()`, less the type and the number of attempts. -/
def options (s : RetryPolicySpec) : List (String × Option Json) :=
  [("delay", s.delay.map .float), ("base", s.base.map .float), ("factor", s.factor.map .float),
    ("max_delay", s.max_delay.map .float), ("jitter", s.jitter.map .bool)]

/-- Drop unset options so each policy receives only fields it accepts. -/
def to_spec (s : RetryPolicySpec) : Dict where
  items := setOptions (("type", some (.str s.type.wire_name)) ::
    ("max_attempts", some (.int s.max_attempts)) :: s.options)
  nodup := (setOptions_names _).nodup (by decide : ["type", "max_attempts", "delay", "base",
    "factor", "max_delay", "jitter"].Nodup)

/-- A request that leaves every option unset that its type does not have. -/
def OwnOptions (s : RetryPolicySpec) : Prop :=
  (s.type ≠ .fixed → s.delay = none) ∧
    (s.type ≠ .exponential →
      s.base = none ∧ s.factor = none ∧ s.max_delay = none ∧ s.jitter = none)

instance (s : RetryPolicySpec) : Decidable s.OwnOptions :=
  inferInstanceAs (Decidable ((_ → _) ∧ (_ → _ ∧ _ ∧ _ ∧ _)))

/-- The policy that was asked for: of the type, with the options that were set and with
the number of attempts, of which `NoRetry` has one. -/
def Asks (s : RetryPolicySpec) : RetryPolicy → Prop
  | .NoRetry => s.type = .none
  | .FixedDelay p =>
      s.type = .fixed ∧ p.attempts = s.max_attempts ∧ ∀ d ∈ s.delay, p.delay = d
  | .ExponentialBackoff p =>
      s.type = .exponential ∧ p.attempts = s.max_attempts ∧ (∀ b ∈ s.base, p.base = b) ∧
        (∀ f ∈ s.factor, p.factor = f) ∧ (∀ m ∈ s.max_delay, p.max_delay = m) ∧
        ∀ j ∈ s.jitter, p.jitter = j

end RetryPolicySpec

/-! ## Reading it back

Both writers leave a `type`, a `max_attempts` and some options; `build_policy` looks at
nothing else. -/

/-- Options under the names the policies have for them. -/
def Plain (options : List (String × Json)) : Prop :=
  ∀ o ∈ options, o.1 ∈ ["delay", "base", "factor", "max_delay", "jitter"]

theorem Plain.ne {options : List (String × Json)} (h : Plain options) {name : String}
    (hname : name ∉ ["delay", "base", "factor", "max_delay", "jitter"]) :
    ∀ o ∈ options, o.1 ≠ name := by
  intro o ho he
  exact hname (he ▸ h o ho)

/-- **What `build_policy` makes of such a `dict`.** -/
theorem build_policy_wire {d : Dict} {kind : String} {n : ℤ} {options : List (String × Json)}
    {allowed : List String}
    (hitems : d.items = ("type", .str kind) :: ("max_attempts", .int n) :: options)
    (hlower : kind.toLower = kind) (hallowed : policyFields kind = some allowed)
    (hplain : Plain options) :
    build_policy (some d) =
      if ((options.map Prod.fst ++ ["attempts"]).filter (· ∉ allowed)).isEmpty then
        constructPolicy kind (options ++ [("attempts", .int n)])
      else .error (.ValueError ("unknown options for " ++ pyRepr kind ++ " policy: "
        ++ pyReprList (((options.map Prod.fst ++ ["attempts"]).filter (· ∉ allowed)).insertionSort
          (· ≤ ·)))) := by
  -- Dropping the type and renaming the attempts leaves the options, and the attempts last.
  have hkwargs : renameMaxAttempts (d.items.filter (fun item => item.1 ≠ "type")) =
      options ++ [("attempts", .int n)] := by
    have htype : options.filter (fun item => item.1 ≠ "type") = options :=
      List.filter_eq_self.mpr (fun o ho => decide_eq_true (hplain.ne (by decide) o ho))
    have hmax : options.filter (fun item => item.1 ≠ "max_attempts") = options :=
      List.filter_eq_self.mpr (fun o ho => decide_eq_true (hplain.ne (by decide) o ho))
    have hattempts : options.any (fun item => item.1 = "attempts") = false :=
      List.any_eq_false.mpr (fun o ho he => hplain.ne (by decide) o ho (of_decide_eq_true he))
    rw [hitems, List.filter_cons_of_neg (by simp), List.filter_cons_of_pos (by simp), htype]
    unfold renameMaxAttempts
    rw [List.find?_cons_of_pos (by simp)]
    dsimp only
    rw [List.filter_cons_of_neg (by simp), hmax, hattempts, if_neg Bool.false_ne_true]
  unfold build_policy
  simp only [Option.map_some, Option.getD_some, hkwargs]
  rw [hitems, List.find?_cons_of_pos (by simp)]
  simp only [List.isEmpty_cons, Bool.false_eq_true, if_false, Option.map_some, Option.getD_some,
    Json.pyStr, hlower, hallowed, List.map_append, List.map_cons, List.map_nil]

/-- A class that has all the options is constructed. -/
theorem build_policy_known {d : Dict} {kind : String} {n : ℤ} {options : List (String × Json)}
    {allowed : List String}
    (hitems : d.items = ("type", .str kind) :: ("max_attempts", .int n) :: options)
    (hlower : kind.toLower = kind) (hallowed : policyFields kind = some allowed)
    (hplain : Plain options) (hattempts : "attempts" ∈ allowed)
    (hknown : ∀ o ∈ options, o.1 ∈ allowed) :
    build_policy (some d) = constructPolicy kind (options ++ [("attempts", .int n)]) := by
  have hnone : (options.map Prod.fst ++ ["attempts"]).filter (· ∉ allowed) = [] := by
    refine List.filter_eq_nil_iff.mpr (fun name hname hunknown => ?_)
    refine of_decide_eq_true hunknown ?_
    rcases List.mem_append.mp hname with hname | hname
    · obtain ⟨o, ho, rfl⟩ := List.mem_map.mp hname
      exact hknown o ho
    · rw [List.mem_singleton.mp hname]
      exact hattempts
  rw [build_policy_wire hitems hlower hallowed hplain, hnone, if_pos List.isEmpty_nil]

/-- An option of the list, or its default, as a keyword argument. -/
theorem kwarg_setOptions {α : Type} {options : List (String × Option Json)}
    (hnodup : (options.map Prod.fst).Nodup) {name : String} {value : Option Json}
    (hmem : (name, value) ∈ options) (n : ℤ) (hname : name ≠ "attempts")
    (convert : Json → Except Exn α) (default : α) :
    kwarg (setOptions options ++ [("attempts", .int n)]) name convert default =
      (value.map convert).getD (.ok default) := by
  have hfind : (setOptions options).find? (fun item => item.1 = name) =
      value.map (fun v => (name, v)) := by
    induction options with
    | nil => cases hmem
    | cons o rest ih =>
        obtain ⟨hfresh, hrest⟩ := List.nodup_cons.mp hnodup
        rcases List.mem_cons.mp hmem with rfl | hlater
        · -- The option itself: no later one has its name.
          have hnone : (setOptions rest).find? (fun item => item.1 = name) = none := by
            refine List.find?_eq_none.mpr (fun item hitem he => hfresh ?_)
            rw [← of_decide_eq_true he]
            exact (setOptions_names rest).subset (List.mem_map_of_mem hitem)
          cases value with
          | none => exact hnone
          | some v => exact List.find?_cons_of_pos (by simp)
        · have hother : o.1 ≠ name := by
            intro he
            rw [he] at hfresh
            exact hfresh (List.mem_map.mpr ⟨_, hlater, rfl⟩)
          obtain ⟨name', value'⟩ := o
          cases value' with
          | none => exact ih hrest hlater
          | some v =>
              exact (List.find?_cons_of_neg (by simpa using hother)).trans (ih hrest hlater)
  unfold kwarg
  rw [List.find?_append, hfind]
  cases value with
  | none => simp [hname.symm]
  | some v => rfl

/-- The attempts as a keyword argument. -/
theorem kwarg_attempts {options : List (String × Json)}
    (hplain : Plain options) (n default : ℤ) :
    kwarg (options ++ [("attempts", .int n)]) "attempts" Json.integer default = .ok n := by
  have hnone : options.find? (fun item => item.1 = "attempts") = none :=
    List.find?_eq_none.mpr (fun o ho he => hplain.ne (by decide) o ho (of_decide_eq_true he))
  unfold kwarg
  rw [List.find?_append, hnone]
  rfl

/-- A class that takes no `wire_name` argument is not given one. -/
theorem no_wire_name {options : List (String × Json)} (hplain : Plain options) (n : ℤ) :
    (options ++ [("attempts", Json.int n)]).any (fun item => item.1 = "wire_name") = false := by
  refine List.any_eq_false.mpr (fun o ho he => ?_)
  rcases List.mem_append.mp ho with ho | ho
  · exact hplain.ne (by decide) o ho (of_decide_eq_true he)
  · rw [List.mem_singleton.mp ho] at he
    exact absurd (of_decide_eq_true he) (by decide : "attempts" ≠ "wire_name")

theorem validate_no_attempt {attempts : ℤ} {delay : ℚ} (h : attempts < 1) :
    validate attempts delay = .error (.ValueError "max_attempts must be at least 1") :=
  dif_pos h

theorem validate_negative {attempts : ℤ} {delay : ℚ} (hpos : 1 ≤ attempts) (h : delay < 0) :
    validate attempts delay = .error (.ValueError "delay must be non-negative") := by
  unfold validate
  rw [dif_neg (not_lt.mpr hpos), dif_pos h]

theorem validate_fine {attempts : ℤ} {delay : ℚ} (hpos : 1 ≤ attempts) (hnonneg : 0 ≤ delay) :
    validate attempts delay = .ok ⟨hpos, hnonneg⟩ := by
  unfold validate
  rw [dif_neg (not_lt.mpr hpos), dif_neg (not_lt.mpr hnonneg)]

theorem FixedDelay.new_ok {delay : ℚ} {attempts : ℤ} (hpos : 1 ≤ attempts) (hnonneg : 0 ≤ delay) :
    FixedDelay.new delay attempts = .ok ⟨delay, attempts, hpos, hnonneg⟩ := by
  unfold FixedDelay.new
  rw [validate_fine hpos hnonneg]
  rfl

theorem ExponentialBackoff.new_ok {base factor : ℚ} {attempts : ℤ} {max_delay : ℚ} (jitter : Bool)
    (hpos : 1 ≤ attempts) (hnonneg : 0 ≤ base) (hge : 1 ≤ factor) (hmaxpos : 0 < max_delay) :
    ExponentialBackoff.new base factor attempts max_delay jitter =
      .ok ⟨base, factor, attempts, max_delay, jitter, hpos, hnonneg, hge, hmaxpos⟩ := by
  unfold ExponentialBackoff.new
  rw [validate_fine hpos hnonneg]
  show (if hf : factor < 1 then _ else if hm : max_delay ≤ 0 then _ else _) = _
  rw [dif_neg (not_lt.mpr hge), dif_neg (not_le.mpr hmaxpos)]
  rfl

/-- A factor below one is refused. -/
theorem ExponentialBackoff.new_shrinking {base factor : ℚ} {attempts : ℤ} (max_delay : ℚ)
    (jitter : Bool) (hpos : 1 ≤ attempts) (hnonneg : 0 ≤ base) (h : factor < 1) :
    ExponentialBackoff.new base factor attempts max_delay jitter =
      .error (.ValueError "factor must be >= 1.0, else backoff shrinks") := by
  unfold ExponentialBackoff.new
  rw [validate_fine hpos hnonneg]
  show (if hf : factor < 1 then _ else _) = _
  rw [dif_pos h]

/-- The constructor of `FixedDelay`, with the arguments it finds. -/
theorem constructPolicy_fixed_eq {kwargs : List (String × Json)} {attempts : ℤ} {delay : ℚ}
    (hwire : kwargs.any (fun item => item.1 = "wire_name") = false)
    (hattempts : kwarg kwargs "attempts" Json.integer 3 = .ok attempts)
    (hdelay : kwarg kwargs "delay" Json.number 5 = .ok delay) :
    constructPolicy "fixed" kwargs = (FixedDelay.new delay attempts).map .FixedDelay := by
  unfold constructPolicy
  rw [hwire, if_neg Bool.false_ne_true, if_neg (by decide), if_pos rfl, hattempts, hdelay]
  show (validate attempts 0 >>= fun _ => FixedDelay.new delay attempts >>= fun p =>
    (.ok (.FixedDelay p) : Except Exn RetryPolicy)) = _
  unfold FixedDelay.new
  by_cases hpos : attempts < 1
  · rw [validate_no_attempt hpos, validate_no_attempt hpos]
    rfl
  · rw [validate_fine (not_lt.mp hpos) le_rfl]
    rfl

/-- Arguments in range make a policy. -/
theorem constructPolicy_fixed {kwargs : List (String × Json)} {attempts : ℤ} {delay : ℚ}
    (hwire : kwargs.any (fun item => item.1 = "wire_name") = false)
    (hattempts : kwarg kwargs "attempts" Json.integer 3 = .ok attempts)
    (hdelay : kwarg kwargs "delay" Json.number 5 = .ok delay)
    (hpos : 1 ≤ attempts) (hnonneg : 0 ≤ delay) :
    constructPolicy "fixed" kwargs = .ok (.FixedDelay ⟨delay, attempts, hpos, hnonneg⟩) := by
  rw [constructPolicy_fixed_eq hwire hattempts hdelay, FixedDelay.new_ok hpos hnonneg]
  rfl

section Exponential

variable {kwargs : List (String × Json)} {attempts : ℤ} {base factor max_delay : ℚ} {jitter : Bool}

/-- The constructor of `ExponentialBackoff`, with the arguments it finds. -/
theorem constructPolicy_exponential_eq
    (hwire : kwargs.any (fun item => item.1 = "wire_name") = false)
    (hattempts : kwarg kwargs "attempts" Json.integer 5 = .ok attempts)
    (hbase : kwarg kwargs "base" Json.number 1 = .ok base)
    (hfactor : kwarg kwargs "factor" Json.number 2 = .ok factor)
    (hmax : kwarg kwargs "max_delay" Json.number 300 = .ok max_delay)
    (hjitter : kwarg kwargs "jitter" (fun value => .ok value.truthy) true = .ok jitter) :
    constructPolicy "exponential" kwargs =
      (ExponentialBackoff.new base factor attempts max_delay jitter).map .ExponentialBackoff := by
  unfold constructPolicy
  rw [hwire, if_neg Bool.false_ne_true, if_neg (by decide), if_neg (by decide), hattempts, hbase,
    hfactor, hmax, hjitter]
  show (validate attempts 0 >>= fun _ => validate attempts base >>= fun _ =>
    ExponentialBackoff.new base factor attempts 1 true >>= fun _ =>
    ExponentialBackoff.new base factor attempts max_delay jitter >>= fun p =>
    (.ok (.ExponentialBackoff p) : Except Exn RetryPolicy)) = _
  by_cases hpos : attempts < 1
  · unfold ExponentialBackoff.new
    rw [validate_no_attempt hpos, validate_no_attempt hpos]
    rfl
  have hfirst := not_lt.mp hpos
  rw [validate_fine hfirst le_rfl]
  by_cases hnonneg : base < 0
  · unfold ExponentialBackoff.new
    rw [validate_negative hfirst hnonneg]
    rfl
  have hsecond := not_lt.mp hnonneg
  rw [validate_fine hfirst hsecond]
  -- To check the factor before `max_delay` is read changes nothing once both are there.
  by_cases hshrinks : factor < 1
  · rw [ExponentialBackoff.new_shrinking 1 true hfirst hsecond hshrinks,
      ExponentialBackoff.new_shrinking max_delay jitter hfirst hsecond hshrinks]
    rfl
  · rw [ExponentialBackoff.new_ok true hfirst hsecond (not_lt.mp hshrinks) zero_lt_one]
    rfl

theorem constructPolicy_exponential
    (hwire : kwargs.any (fun item => item.1 = "wire_name") = false)
    (hattempts : kwarg kwargs "attempts" Json.integer 5 = .ok attempts)
    (hbase : kwarg kwargs "base" Json.number 1 = .ok base)
    (hfactor : kwarg kwargs "factor" Json.number 2 = .ok factor)
    (hmax : kwarg kwargs "max_delay" Json.number 300 = .ok max_delay)
    (hjitter : kwarg kwargs "jitter" (fun value => .ok value.truthy) true = .ok jitter)
    (hpos : 1 ≤ attempts) (hnonneg : 0 ≤ base) (hge : 1 ≤ factor) (hmaxpos : 0 < max_delay) :
    constructPolicy "exponential" kwargs =
      .ok (.ExponentialBackoff
        ⟨base, factor, attempts, max_delay, jitter, hpos, hnonneg, hge, hmaxpos⟩) := by
  rw [constructPolicy_exponential_eq hwire hattempts hbase hfactor hmax hjitter,
    ExponentialBackoff.new_ok jitter hpos hnonneg hge hmaxpos]
  rfl

end Exponential

/-- A block that returns has come past each of its lines. -/
theorem ok_of_bind_ok {α β : Type} {x : Except Exn α} {f : α → Except Exn β} {b : β}
    (h : x >>= f = .ok b) : ∃ a, x = .ok a ∧ f a = .ok b := by
  cases x with
  | error e => cases h
  | ok a => exact ⟨a, rfl, h⟩

theorem FixedDelay.attempts_new {delay : ℚ} {attempts : ℤ} {p : FixedDelay}
    (h : FixedDelay.new delay attempts = .ok p) : p.attempts = attempts := by
  obtain ⟨_, -, h⟩ := ok_of_bind_ok h
  cases h
  rfl

theorem ExponentialBackoff.attempts_new {base factor max_delay : ℚ} {attempts : ℤ} {jitter : Bool}
    {p : ExponentialBackoff} (h : ExponentialBackoff.new base factor attempts max_delay jitter = .ok p) :
    p.attempts = attempts := by
  obtain ⟨_, -, h⟩ := ok_of_bind_ok h
  split at h
  · cases h
  · split at h
    · cases h
    · cases h
      rfl

/-- A policy that retries has the attempts it was constructed with. -/
theorem constructPolicy_attempts {kind : String} {kwargs : List (String × Json)} {n : ℤ}
    {p : RetryPolicy} (hattempts : ∀ default, kwarg kwargs "attempts" Json.integer default = .ok n)
    (h : constructPolicy kind kwargs = .ok p) : p = .NoRetry ∨ p.max_attempts = n := by
  unfold constructPolicy at h
  rw [hattempts, hattempts] at h
  split at h
  · cases h
  split at h
  · exact Or.inl (Except.ok.inj h).symm
  split at h
  · obtain ⟨_, hn, h⟩ := ok_of_bind_ok h
    cases hn
    obtain ⟨_, -, h⟩ := ok_of_bind_ok h
    obtain ⟨delay, -, h⟩ := ok_of_bind_ok h
    obtain ⟨q, hq, h⟩ := ok_of_bind_ok h
    cases h
    exact Or.inr (FixedDelay.attempts_new hq)
  · obtain ⟨_, hn, h⟩ := ok_of_bind_ok h
    cases hn
    obtain ⟨_, -, h⟩ := ok_of_bind_ok h
    obtain ⟨base, -, h⟩ := ok_of_bind_ok h
    obtain ⟨_, -, h⟩ := ok_of_bind_ok h
    obtain ⟨factor, -, h⟩ := ok_of_bind_ok h
    obtain ⟨_, -, h⟩ := ok_of_bind_ok h
    obtain ⟨max_delay, -, h⟩ := ok_of_bind_ok h
    obtain ⟨jitter, -, h⟩ := ok_of_bind_ok h
    obtain ⟨q, hq, h⟩ := ok_of_bind_ok h
    cases h
    exact Or.inr (ExponentialBackoff.attempts_new hq)

/-! ## Policies written down -/

namespace RetryPolicy

/-- Options are set under the names of the fields. -/
theorem plain_options (p : RetryPolicy) : Plain p.options := by
  cases p with
  | NoRetry => simp [options, Plain]
  | FixedDelay p => simp [options, Plain]
  | ExponentialBackoff p => simp [options, Plain]

/-- The persisted form of `NoRetry` has an option that the class does not take. -/
theorem build_describe_none :
    build_policy (some NoRetry.describe) =
      .error (.ValueError "unknown options for 'none' policy: ['attempts']") := by
  rw [build_policy_wire rfl wire_name_lower rfl NoRetry.plain_options]
  rfl

/-- A description of a fixed delay is read back. -/
theorem build_describe_fixed (p : Conductor.FixedDelay) :
    build_policy (some (FixedDelay p).describe) = .ok (FixedDelay p) := by
  have hplain := (FixedDelay p).plain_options
  rw [build_policy_known rfl wire_name_lower rfl hplain (by decide) (by simp [options])]
  exact constructPolicy_fixed (no_wire_name hplain _) (kwarg_attempts hplain _ _) rfl
    p.attempts_pos p.delay_nonneg

theorem build_describe_exponential (p : Conductor.ExponentialBackoff) :
    build_policy (some (ExponentialBackoff p).describe) = .ok (ExponentialBackoff p) := by
  have hplain := (ExponentialBackoff p).plain_options
  rw [build_policy_known rfl wire_name_lower rfl hplain (by decide) (by simp [options])]
  exact constructPolicy_exponential (no_wire_name hplain _) (kwarg_attempts hplain _ _) rfl rfl rfl
    rfl p.attempts_pos p.base_nonneg p.factor_ge p.max_delay_pos

end RetryPolicy

/-- **`describe` and `build_policy`.** A policy comes back unchanged from its persisted
form, unless it is `NoRetry`. -/
theorem build_policy_describe_iff (p : RetryPolicy) :
    build_policy (some p.describe) = .ok p ↔ p ≠ .NoRetry := by
  cases p with
  | NoRetry =>
      refine iff_of_false (fun h => ?_) (fun h => h rfl)
      rw [RetryPolicy.build_describe_none] at h
      cases h
  | FixedDelay p => exact iff_of_true (RetryPolicy.build_describe_fixed p) nofun
  | ExponentialBackoff p => exact iff_of_true (RetryPolicy.build_describe_exponential p) nofun

/-- `NoRetry` does not come back. -/
theorem describe_none_refused :
    build_policy (some RetryPolicy.NoRetry.describe) ≠ .ok .NoRetry ∧
      build_policy (some RetryPolicy.NoRetry.describe) =
        .error (.ValueError "unknown options for 'none' policy: ['attempts']") := by
  rw [RetryPolicy.build_describe_none]
  exact ⟨nofun, rfl⟩

/-! ## Policies asked for -/

namespace RetryPolicySpec

variable {s : RetryPolicySpec}

theorem nodup_options (s : RetryPolicySpec) : (s.options.map Prod.fst).Nodup :=
  (by decide : ["delay", "base", "factor", "max_delay", "jitter"].Nodup)

/-- Options are set under the names of the fields. -/
theorem plain_options (s : RetryPolicySpec) : Plain (setOptions s.options) := by
  intro o ho
  exact (setOptions_names s.options).subset (List.mem_map_of_mem ho)

/-- What a list of options sets is set in one of them. -/
theorem mem_setOptions {options : List (String × Option Json)} {o : String × Json}
    (ho : o ∈ setOptions options) : (o.1, some o.2) ∈ options := by
  obtain ⟨⟨name, value⟩, hmem, hvalue⟩ := List.mem_filterMap.mp ho
  obtain ⟨v, rfl, rfl⟩ := Option.map_eq_some_iff.mp hvalue
  exact hmem

theorem kwarg_number {name : String} {value : Option ℚ}
    (hmem : (name, value.map Json.float) ∈ s.options) (hname : name ≠ "attempts") (default : ℚ) :
    kwarg (setOptions s.options ++ [("attempts", .int s.max_attempts)]) name Json.number default =
      .ok (value.getD default) := by
  rw [kwarg_setOptions s.nodup_options hmem s.max_attempts hname]
  cases value with
  | none => rfl
  | some q => rfl

theorem kwarg_bool {name : String} {value : Option Bool}
    (hmem : (name, value.map Json.bool) ∈ s.options) (hname : name ≠ "attempts")
    (default : Bool) :
    kwarg (setOptions s.options ++ [("attempts", .int s.max_attempts)]) name
      (fun v => .ok v.truthy) default = .ok (value.getD default) := by
  rw [kwarg_setOptions s.nodup_options hmem s.max_attempts hname]
  cases value with
  | none => rfl
  | some b => rfl

theorem getD_of_mem {α : Type} {value : Option α} {a : α} (h : a ∈ value) (default : α) :
    value.getD default = a := by
  rw [Option.mem_def.mp h]
  rfl

/-- A request for no retries sets nothing but the attempts, and is refused for them. -/
theorem build_none (htype : s.type = .none) (hown : s.OwnOptions) :
    build_policy (some s.to_spec) =
      .error (.ValueError "unknown options for 'none' policy: ['attempts']") := by
  have hdelay := hown.1 (by rw [htype]; exact nofun)
  obtain ⟨hbase, hfactor, hmax, hjitter⟩ := hown.2 (by rw [htype]; exact nofun)
  have hnothing : setOptions s.options = [] := by
    unfold options
    rw [hdelay, hbase, hfactor, hmax, hjitter]
    rfl
  have hplain := s.plain_options
  have hallowed : policyFields s.type.wire_name = some ["wire_name"] := by
    rw [htype]
    rfl
  rw [build_policy_wire rfl PolicyType.wire_name_lower hallowed hplain, hnothing, htype]
  rfl

theorem build_fixed (htype : s.type = .fixed) (hown : s.OwnOptions) :
    ∃ p, build_policy (some s.to_spec) = .ok p ∧ s.Asks p := by
  obtain ⟨hbase, hfactor, hmax, hjitter⟩ := hown.2 (by rw [htype]; exact nofun)
  have hplain := s.plain_options
  have hallowed : policyFields s.type.wire_name = some ["wire_name", "delay", "attempts"] := by
    rw [htype]
    rfl
  -- The delay is the only option that can be set.
  have hknown : ∀ o ∈ setOptions s.options, o.1 ∈ ["wire_name", "delay", "attempts"] := by
    intro o ho
    have hmem := mem_setOptions ho
    unfold options at hmem
    rw [hbase, hfactor, hmax, hjitter] at hmem
    simp only [Option.map_none, List.mem_cons, Prod.mk.injEq, reduceCtorEq, and_false,
      List.not_mem_nil, or_false] at hmem
    rw [hmem.1]
    decide
  rw [build_policy_known rfl PolicyType.wire_name_lower hallowed hplain (by decide) hknown]
  have hdelay : ("delay", s.delay.map Json.float) ∈ s.options := by simp [options]
  have hpos := s.max_attempts_bounds.1
  have hnonneg : 0 ≤ s.delay.getD 5 := by
    cases hd : s.delay with
    | none => norm_num
    | some d => exact (s.delay_bounds d hd).1
  rw [htype]
  refine ⟨_, constructPolicy_fixed (no_wire_name hplain _) (kwarg_attempts hplain _ _)
    (kwarg_number hdelay (by decide) 5) hpos hnonneg, htype, rfl, fun d hd => ?_⟩
  exact getD_of_mem hd 5

theorem build_exponential (htype : s.type = .exponential) (hown : s.OwnOptions) :
    ∃ p, build_policy (some s.to_spec) = .ok p ∧ s.Asks p := by
  have hnodelay := hown.1 (by rw [htype]; exact nofun)
  have hplain := s.plain_options
  have hallowed : policyFields s.type.wire_name =
      some ["wire_name", "base", "factor", "attempts", "max_delay", "jitter"] := by
    rw [htype]
    rfl
  have hknown : ∀ o ∈ setOptions s.options,
      o.1 ∈ ["wire_name", "base", "factor", "attempts", "max_delay", "jitter"] := by
    intro o ho
    have hmem := mem_setOptions ho
    unfold options at hmem
    rw [hnodelay] at hmem
    simp only [Option.map_none, List.mem_cons, Prod.mk.injEq, reduceCtorEq, and_false,
      false_or, List.not_mem_nil, or_false] at hmem
    rcases hmem with h | h | h | h
    · rw [h.1]
      decide
    · rw [h.1]
      decide
    · rw [h.1]
      decide
    · rw [h.1]
      decide
  rw [build_policy_known rfl PolicyType.wire_name_lower hallowed hplain (by decide) hknown]
  have hbase : ("base", s.base.map Json.float) ∈ s.options := by simp [options]
  have hfactor : ("factor", s.factor.map Json.float) ∈ s.options := by simp [options]
  have hmax : ("max_delay", s.max_delay.map Json.float) ∈ s.options := by simp [options]
  have hjitter : ("jitter", s.jitter.map Json.bool) ∈ s.options := by simp [options]
  -- The defaults pass the checks of the constructor, and so does what the schema lets by.
  have hnonneg : 0 ≤ s.base.getD 1 := by
    cases hb : s.base with
    | none => norm_num
    | some b => exact (s.base_bounds b hb).1.le
  have hge : 1 ≤ s.factor.getD 2 := by
    cases hf : s.factor with
    | none => norm_num
    | some f => exact (s.factor_bounds f hf).1
  have hmaxpos : 0 < s.max_delay.getD 300 := by
    cases hm : s.max_delay with
    | none => norm_num
    | some m => exact (s.max_delay_bounds m hm).1
  rw [htype]
  exact ⟨_, constructPolicy_exponential (no_wire_name hplain _) (kwarg_attempts hplain _ _)
    (kwarg_number hbase (by decide) 1) (kwarg_number hfactor (by decide) 2)
    (kwarg_number hmax (by decide) 300) (kwarg_bool hjitter (by decide) true)
    s.max_attempts_bounds.1 hnonneg hge hmaxpos, htype, rfl, fun b hb => getD_of_mem hb 1,
    fun f hf => getD_of_mem hf 2, fun m hm => getD_of_mem hm 300, fun j hj => getD_of_mem hj true⟩

/-- **What the API schema accepts can be built**, with the values it was given, unless
it asks for no retries. -/
theorem build_to_spec_iff (hown : s.OwnOptions) :
    (∃ p, build_policy (some s.to_spec) = .ok p ∧ s.Asks p) ↔ s.type ≠ .none := by
  cases htype : s.type with
  | none =>
      refine iff_of_false (fun ⟨p, hp, _⟩ => ?_) (fun h => h rfl)
      rw [build_none htype hown] at hp
      cases hp
  | fixed => exact iff_of_true (build_fixed htype hown) nofun
  | exponential => exact iff_of_true (build_exponential htype hown) nofun

/-- The policy that was asked for makes the attempts that were asked for. -/
theorem Asks.max_attempts {p : RetryPolicy} (h : s.Asks p) :
    p.max_attempts = if s.type = .none then 1 else s.max_attempts := by
  cases p with
  | NoRetry =>
      rw [if_pos (show s.type = .none from h)]
      rfl
  | FixedDelay p =>
      obtain ⟨htype, hattempts, -⟩ := h
      rw [if_neg (by rw [htype]; exact nofun)]
      exact hattempts
  | ExponentialBackoff p =>
      obtain ⟨htype, hattempts, -⟩ := h
      rw [if_neg (by rw [htype]; exact nofun)]
      exact hattempts

/-- The schema lets no policy through that makes more than a hundred attempts. -/
theorem max_attempts_le (s : RetryPolicySpec) {p : RetryPolicy}
    (h : p ∈ (build_policy (some s.to_spec)).toOption) : p.max_attempts ≤ 100 := by
  have hplain := s.plain_options
  obtain ⟨allowed, hallowed⟩ : ∃ allowed, policyFields s.type.wire_name = some allowed := by
    cases s.type <;> exact ⟨_, rfl⟩
  rw [build_policy_wire rfl PolicyType.wire_name_lower hallowed hplain] at h
  split at h
  · cases hbuilt : constructPolicy s.type.wire_name
        (setOptions s.options ++ [("attempts", .int s.max_attempts)]) with
    | error e =>
        rw [hbuilt] at h
        cases h
    | ok q =>
        rw [hbuilt] at h
        cases h
        rcases constructPolicy_attempts (kwarg_attempts hplain _) hbuilt with rfl | he
        · decide
        · rw [he]
          exact s.max_attempts_bounds.2
  · cases h

end RetryPolicySpec

end Conductor
