import Mathlib.Data.Rat.Defs
import Pingweave.Format

/-!
# YAML trees

What the C++ programs (fkyaml) and the Python programs (PyYAML) see of the same document. The
entries of a mapping stand in the order in which fkyaml iterates over them.
-/

namespace Pingweave
set_option autoImplicit false

/-- A scalar; a float without a finite value has no number here. -/
inductive Scalar where
  | null
  | bool (b : Bool)
  | int (n : Int)
  | float (x : Option Rat)
  | string (s : Text)
  deriving DecidableEq

inductive Yaml where
  | scalar (s : Scalar)
  | sequence (items : List Yaml)
  | mapping (entries : List (Scalar × Yaml))

namespace Yaml

/-! ### fkyaml -/

def isNull : Yaml → Bool
  | scalar .null => true
  | _ => false

/-- `contains(key)` and, where it holds, `operator[](key)`. -/
def lookup (key : Text) : Yaml → Option Yaml
  | mapping entries => (entries.find? fun e => e.1 = .string key).map Prod.snd
  | _ => none

/-- What `for (auto &x : node)` goes over; on a scalar `begin` throws. Of a mapping it yields the
values. -/
def range : Yaml → Option (List Yaml)
  | scalar _ => none
  | sequence items => some items
  | mapping entries => some (entries.map Prod.snd)

/-- `node[n]` with a number; `none` where it throws, gives a fresh null node or is undefined. -/
def index (n : Nat) : Yaml → Option Yaml
  | scalar _ => none
  | sequence items => items[n]?
  | mapping entries => (entries.find? fun e => e.1 = .int n).map Prod.snd

/-- `get_value_ref<std::string &>()` -/
def stringRef : Yaml → Option Text
  | scalar (.string s) => some s
  | _ => none

/-- `get_value_ref<fkyaml::node::integer_type &>()` -/
def integerRef : Yaml → Option Int
  | scalar (.int n) => some n
  | _ => none

/-! ### Python -/

/-- `bool(x)` -/
def truthy : Yaml → Bool
  | scalar .null => false
  | scalar (.bool b) => b
  | scalar (.int n) => n ≠ 0
  | scalar (.float x) => x ≠ some 0
  | scalar (.string s) => s ≠ []
  | sequence items => !items.isEmpty
  | mapping entries => !entries.isEmpty

/-- `x.items()`, which only a dict has. -/
def items : Yaml → Option (List (Scalar × Yaml))
  | mapping entries => some entries
  | _ => none

/-- What `for y in x` goes over; of a dict it yields the keys, of a string its characters. -/
def iter : Yaml → Option (List Yaml)
  | sequence items => some items
  | mapping entries => some (entries.map fun e => scalar e.1)
  | scalar (.string s) => some (s.map fun c => scalar (.string [c]))
  | scalar _ => none

theorem lookup_eq_some {key : Text} {y z : Yaml} (h : y.lookup key = some z) :
    ∃ entries, y = mapping entries ∧ (.string key, z) ∈ entries := by
  cases y with
  | scalar s => cases h
  | sequence items => cases h
  | mapping entries =>
    obtain ⟨⟨k, v⟩, hfind, rfl⟩ := Option.map_eq_some_iff.mp h
    have hkey := List.find?_some (p := fun e : Scalar × Yaml => decide (e.1 = .string key)) hfind
    have hk : k = .string key := of_decide_eq_true hkey
    exact ⟨entries, rfl, hk ▸ List.mem_of_find?_eq_some hfind⟩

end Yaml
end Pingweave
