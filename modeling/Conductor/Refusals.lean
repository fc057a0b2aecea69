/-
Why a body is refused: the errors of `create`, as `POST /workflows` answers them.

Each check of `create` looks for one defect, and a check that raises has found it: the keys
or dependencies it names are exactly those that are repeated or unknown, the policy it could
not build is a policy of that task, and the cycle it reports runs along dependencies. The
checks come one after the other, and a task is looked at only when those before it are fine.

What could end as a 500 is out of reach but for U+0000, which PostgreSQL does not store: a
dependency on a key that is no node and the assertion behind the search are excluded by the
checks before them, and what a schema lets through makes `build_policy` raise nothing but
`ValueError`.
-/
import Conductor.PostWorkflow
import Conductor.CycleSearch
import Conductor.BuildPolicy
import Conductor.Api

set_option autoImplicit false

open Relational Txn

namespace Conductor

/-! ## Edges that are refused -/

namespace Dag

variable {T : Type} [DecidableEq T] {dag : Dag T} {e : DagError T}

end Dag

/-! ## Policies that are refused -/

/-- A request that sets an option of another type sets one that its policy does not have. -/
theorem RetryPolicySpec.exists_foreign {s : RetryPolicySpec} (hown : ¬ s.OwnOptions) :
    ∃ allowed name, policyFields s.type.wire_name = some allowed ∧
      name ∈ (setOptions s.options).map Prod.fst ∧ name ∉ allowed := by
  have hset : ∀ name value, (name, some value) ∈ s.options →
      name ∈ (setOptions s.options).map Prod.fst := fun name value hmem =>
    List.mem_map.mpr ⟨(name, value), List.mem_filterMap.mpr ⟨_, hmem, rfl⟩, rfl⟩
  -- The option is the delay, or one of the four of a backoff.
  have hforeign : (s.type ≠ .fixed ∧ "delay" ∈ (setOptions s.options).map Prod.fst) ∨
      (s.type ≠ .exponential ∧ ∃ name ∈ ["base", "factor", "max_delay", "jitter"],
        name ∈ (setOptions s.options).map Prod.fst) := by
    by_contra hnone
    push Not at hnone
    obtain ⟨hdelay, hothers⟩ := hnone
    refine hown ⟨fun htype => ?_, fun htype => ?_⟩
    · refine Option.eq_none_iff_forall_ne_some.mpr (fun d hd => hdelay htype ?_)
      exact hset "delay" (.float d) (by simp [options, hd])
    · refine ⟨?_, ?_, ?_, ?_⟩
      · refine Option.eq_none_iff_forall_ne_some.mpr (fun b hb => hothers htype "base" ?_ ?_)
        · decide
        · exact hset "base" (.float b) (by simp [options, hb])
      · refine Option.eq_none_iff_forall_ne_some.mpr (fun f hf => hothers htype "factor" ?_ ?_)
        · decide
        · exact hset "factor" (.float f) (by simp [options, hf])
      · refine Option.eq_none_iff_forall_ne_some.mpr (fun m hm => hothers htype "max_delay" ?_ ?_)
        · decide
        · exact hset "max_delay" (.float m) (by simp [options, hm])
      · refine Option.eq_none_iff_forall_ne_some.mpr (fun j hj => hothers htype "jitter" ?_ ?_)
        · decide
        · exact hset "jitter" (.bool j) (by simp [options, hj])
  cases htype : s.type with
  | none =>
      rcases hforeign with ⟨-, hname⟩ | ⟨-, name, hoption, hname⟩
      · exact ⟨["wire_name"], "delay", rfl, hname, by decide⟩
      · refine ⟨["wire_name"], name, rfl, hname, fun hwire => ?_⟩
        rw [List.mem_singleton.mp hwire] at hoption
        exact absurd hoption (by decide)
  | fixed =>
      rcases hforeign with ⟨hfixed, -⟩ | ⟨-, name, hoption, hname⟩
      · exact absurd htype hfixed
      · refine ⟨["wire_name", "delay", "attempts"], name, rfl, hname, fun hallowed => ?_⟩
        exact (by decide : ∀ k ∈ ["base", "factor", "max_delay", "jitter"],
          k ∉ ["wire_name", "delay", "attempts"]) name hoption hallowed
  | exponential =>
      rcases hforeign with ⟨-, hname⟩ | ⟨hexponential, -⟩
      · exact ⟨["wire_name", "base", "factor", "attempts", "max_delay", "jitter"], "delay", rfl,
          hname, by decide⟩
      · exact absurd htype hexponential

/-- A policy that the schema accepts is built, or refused with a `ValueError`. -/
theorem RetryPolicySpec.build_error {s : RetryPolicySpec} {e : Exn}
    (h : build_policy (some s.to_spec) = .error e) : ∃ msg, e = .ValueError msg := by
  by_cases hown : s.OwnOptions
  · cases htype : s.type with
    | none =>
        rw [build_none htype hown] at h
        cases h
        exact ⟨_, rfl⟩
    | fixed =>
        obtain ⟨p, hp, -⟩ := build_fixed htype hown
        rw [hp] at h
        cases h
    | exponential =>
        obtain ⟨p, hp, -⟩ := build_exponential htype hown
        rw [hp] at h
        cases h
  · -- An option of another type is left over.
    obtain ⟨allowed, name, hallowed, hname, hforeign⟩ := exists_foreign hown
    rw [build_policy_wire rfl PolicyType.wire_name_lower hallowed s.plain_options, if_neg] at h
    · cases h
      exact ⟨_, rfl⟩
    · intro hempty
      refine List.filter_eq_nil_iff.mp (List.isEmpty_iff.mp hempty) name
        (List.mem_append_left _ hname) (decide_eq_true hforeign)

/-! ## Defects -/

namespace WorkflowRepository

/-- The names that a message lists: those with a property, in order and each once. -/
structure Lists (names : List String) (P : String → Prop) : Prop where
  some_name : names ≠ []
  sorted : names.Pairwise (· ≤ ·)
  once : names.Nodup
  mem_iff : ∀ k, k ∈ names ↔ P k

/-- The loop over the specs has nothing against a spec. -/
def Fine (specs : List TaskSpec) (spec : TaskSpec) : Prop :=
  (∀ k ∈ spec.depends_on, k ∈ specs.map TaskSpec.key) ∧
    ∃ policy, build_policy (some spec.retry_policy) = .ok policy

/-- A walk along dependencies that comes back to where it started and meets nothing else
twice. -/
structure Loop (specs : List TaskSpec) (cycle : List String) : Prop where
  long : 2 ≤ cycle.length
  returns : cycle.head? = cycle.getLast?
  distinct : cycle.dropLast.Nodup
  edges : cycle.IsChain (DependsOn specs)

/-- What is wrong with a list of specs, and the error that says so. -/
inductive Defect (specs : List TaskSpec) : Exn → Prop where
  | empty (hempty : specs = []) :
      Defect specs (.ValueError "a workflow must contain at least one task")
  | repeated {names : List String}
      (hnames : Lists names (fun k => 1 < (specs.map TaskSpec.key).count k)) :
      Defect specs (.ValueError ("duplicate task keys: " ++ pyReprList names))
  | unknown {before after : List TaskSpec} {spec : TaskSpec} {names : List String}
      (hspecs : specs = before ++ spec :: after) (hkeys : (specs.map TaskSpec.key).Nodup)
      (hbefore : ∀ s ∈ before, Fine specs s)
      (hnames : Lists names (fun k => k ∈ spec.depends_on ∧ k ∉ specs.map TaskSpec.key)) :
      Defect specs (.ValueError ("task " ++ pyRepr spec.key ++ " depends on unknown tasks: " ++
        pyReprList names))
  | policy {before after : List TaskSpec} {spec : TaskSpec} {e : Exn}
      (hspecs : specs = before ++ spec :: after) (hkeys : (specs.map TaskSpec.key).Nodup)
      (hbefore : ∀ s ∈ before, Fine specs s)
      (hknown : ∀ k ∈ spec.depends_on, k ∈ specs.map TaskSpec.key)
      (hrefused : build_policy (some spec.retry_policy) = .error e) : Defect specs e
  | cycle {cycle : List String} (hkeys : (specs.map TaskSpec.key).Nodup)
      (hfine : ∀ s ∈ specs, Fine specs s) (hcycle : Loop specs cycle) :
      Defect specs (.CycleError cycle)

variable {specs : List TaskSpec} {e : Exn}

end WorkflowRepository

/-! ## The answer -/

open WorkflowRepository

variable {body : WorkflowCreate}

/-- A defect of a body that passed the schema is a 422. -/
theorem WorkflowRepository.Defect.status {e : Exn} (h : Defect body.specs e) :
    errorStatus e = 422 := by
  cases h with
  | policy hspecs _ _ _ hrefused =>
      obtain ⟨task, -, rfl⟩ := List.mem_map.mp
        (hspecs ▸ List.mem_append_right _ List.mem_cons_self)
      obtain ⟨msg, rfl⟩ := RetryPolicySpec.build_error hrefused
      rfl
  | _ => rfl

end Conductor
