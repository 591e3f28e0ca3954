/-!
# Documents

The values of a self-describing data format, as far as settings and paths are stored in one.
Fractional numbers are told apart from integers and carry no value, since nothing here reads them.
-/

namespace SealedMail

/-- A value in a document. A `fraction` is any number written with a fraction or an exponent; each
name of a `record` occurs once. -/
inductive Document where
  | null
  | flag (value : Bool)
  | integer (value : Int)
  | fraction
  | text (value : String)
  | list (items : List Document)
  | record (fields : List (String × Document))
  deriving Inhabited

end SealedMail
