import Chomsky.Event
import Chomsky.Text.Blank
import Chomsky.Text.Decimal

/-!
# The limit on the length of words

## Main definitions

* `Chomsky.WordLimit.default` — the limit without a setting.
* `Chomsky.WordLimit.ofSetting` — the limit that a setting asks for.
-/

namespace Chomsky.WordLimit

/-- The greatest length of a candidate word without a setting. -/
def default : Nat := 50

/-- The limit that a setting asks for.  A setting that is not a number, blanks at its ends apart,
is reported and ignored. -/
def ofSetting : Option (List Char) → Nat × List Event
  | none => (default, [])
  | some value =>
    match Text.count? (Text.trim value) with
    | some limit => (limit, [])
    | none => (default, [.limitIgnored value])

end Chomsky.WordLimit
