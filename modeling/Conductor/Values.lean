/-
Python values the service passes around: JSON values, `dict`s with string keys,
clock readings, identifiers and the exceptions the modelled code raises.

A `dict` keeps its insertion order and has pairwise distinct keys; the second is
a field of `Dict`. Numbers that the source holds in a `float` are rationals here,
so arithmetic on them is exact. UUIDs are generated by the client, hence enter
every operation that creates a row as an argument; a natural number stands for
one.
-/
import Mathlib.Data.Rat.Defs
import Mathlib.Data.List.Nodup

set_option autoImplicit false

namespace Conductor

/-- An identifier drawn by `uuid.uuid4()`. -/
abbrev UUID := ℕ

/-- Seconds since the epoch, as `datetime` and as the database clock read them. -/
abbrev Time := ℚ

/-- What a JSONB column holds, and U+0000. The `NaN`, the infinities and the lone surrogates
that `json.loads` lets through besides have no value here: PostgreSQL takes none of them. -/
inductive Json where
  | null
  | bool (b : Bool)
  | int (n : ℤ)
  | float (q : ℚ)
  | str (s : String)
  | list (xs : List Json)
  | object (fields : List (String × Json))
deriving Inhabited

/-- `dict[str, object]`. -/
structure Dict where
  items : List (String × Json)
  nodup : (items.map Prod.fst).Nodup

/-- `{}`. -/
def Dict.empty : Dict := ⟨[], List.nodup_nil⟩

/-- `d.get(key)`. -/
def Dict.get (d : Dict) (key : String) : Option Json :=
  (d.items.find? (fun item => item.1 = key)).map Prod.snd

/-- The exceptions that leave the modelled functions. `IntegrityError` names the
violated constraint; `DataError` is a value that the server refuses; `BaseException` is
one that is no `Exception`, such as `SystemExit`. `Unfinished` is not the source's: the
model of a `while` loop raises it when the bound it was given on the number of rounds
runs out. -/
inductive Exn where
  | ValueError (msg : String)
  | TypeError (msg : String)
  | KeyError (msg : String)
  | AttributeError (msg : String)
  | AssertionError (msg : String)
  | CycleError (cycle : List String)
  | UnknownNodeError (node : String)
  | OverflowError (msg : String)
  | IntegrityError (constraint : String)
  | DataError
  | ConflictError (msg : String)
  | NotFoundError (msg : String)
  | ProblemDetail (status_code : ℕ) (title detail problem_type : String)
  | BaseException (typeName : String)
  | Unfinished
deriving DecidableEq

/-- `repr` of a string of printable characters without quotes or backslashes. -/
def pyRepr (s : String) : String := "'" ++ s ++ "'"

/-- `repr` of a list of such strings. -/
def pyReprList (xs : List String) : String :=
  "[" ++ ", ".intercalate (xs.map pyRepr) ++ "]"

/-- `s[:n]`, by code points. -/
def pySlice (s : String) (n : ℕ) : String := String.ofList (s.toList.take n)

end Conductor
