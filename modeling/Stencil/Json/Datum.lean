import Stencil.Value

/-!
# JSON data

A datum is what a JSON text stands for. Numbers are either whole or floats. The members of an
object keep their order, and a name may occur more than once.
-/

namespace Stencil.Json

/-- A number of a JSON text. -/
inductive Number where
  | whole (n : Int)
  | float (x : Float)

/-- What a JSON text stands for. -/
inductive Datum where
  | null
  | bool (b : Bool)
  | number (n : Number)
  | text (s : String)
  | list (items : List Datum)
  | object (members : List (String × Datum))
  /-- Well-formed, but without a value: a number beyond every float, a text with half of a surrogate
  pair, or an object with such a name. -/
  | valueless

end Stencil.Json
