/-!
# What can go wrong on a link

A link moves octets between the host and the controller. It can fail to come
into being (the device cannot be acquired), be refused by its driver, fail
while moving octets, or be closed. The first three carry the text of a
foreign cause; the wording around that text is fixed here, in
`LinkError.message`, and `LinkError.sources` lists the causes behind an error
from the outermost to the innermost.
-/

namespace PeripheralHost

/-- The causes for which an operation on a link fails. -/
inductive LinkError where
  /-- The device at `path` could not be acquired. -/
  | unavailable (path cause : String)
  /-- The driver of an acquired device refused an operation. -/
  | driver (cause : String)
  /-- Moving octets failed. -/
  | io (cause : String)
  /-- The link is closed, or was never open. -/
  | closed
  deriving DecidableEq, Repr, Inhabited

namespace LinkError

/-- The error as a sentence. -/
def message : LinkError → String
  | unavailable path cause => s!"failed to open serial link {path}: {cause}"
  | driver cause => s!"serial port error: {cause}"
  | io cause => s!"link I/O error: {cause}"
  | closed => "link closed"

/-- The texts of the causes behind the error, outermost first. -/
def sources : LinkError → List String
  | unavailable _ cause => [cause]
  | driver cause => [cause]
  | io cause => [cause]
  | closed => []

/-- Whether the device could not be acquired at all. -/
def isUnavailable : LinkError → Bool
  | unavailable _ _ => true
  | _ => false

end LinkError

end PeripheralHost
