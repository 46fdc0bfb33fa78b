/-! # Settings documents: values

    The values that a TOML document can hold. No setting is a number with a
    fraction or a moment in time, so of these only the kind is kept.
-/

namespace FlatStore.Toml

/-- A value of a document. -/
inductive Value where
  | string (text : String)
  | integer (n : Int)
  | float
  | boolean (b : Bool)
  | moment
  | array (items : List Value)
  | table (entries : List (String × Value))

end FlatStore.Toml
