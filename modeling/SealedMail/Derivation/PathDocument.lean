import SealedMail.Derivation.PathText
import SealedMail.Document

/-!
# Paths in documents

A path is stored as its text.
-/

namespace SealedMail

/-- Why a value in a document is no path. -/
inductive PathDocumentError where
  | notText
  | malformed (cause : DerivationError)
  deriving DecidableEq

namespace Path

/-- Read a path from a document. -/
def ofDocument : Document → Except PathDocumentError Path
  | .text value => (parse value).mapError .malformed
  | _ => .error .notText

/-- A path as a value in a document. -/
def toDocument (path : Path) : Document := .text path.text

end Path

end SealedMail
