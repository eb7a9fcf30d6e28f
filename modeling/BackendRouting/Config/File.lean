import BackendRouting.Config.Document
import BackendRouting.Error
import BackendRouting.Event

/-!
# Configuration files
-/
namespace BackendRouting.Config

/-- The text of a file. A missing file and one that is not UTF-8 have none. -/
def fileText (content? : Option ByteArray) : Except RoutingError String :=
  (content?.bind String.fromUTF8?).elim (.error .unreadable) .ok

def ofFile (content? : Option ByteArray) : Except RoutingError Config := do
  let text ← fileText content?
  (ofText text).mapError .document

/-- Told once the file has been read, before its text is looked at. -/
def fileEvents (path : String) (content? : Option ByteArray) : List Event :=
  match fileText content? with
  | .ok _ => [.loading path]
  | .error _ => []

end BackendRouting.Config
