import MemphisOS.Ecma.Json

/-!
# Identities

Actors are compared after normalisation: a UUID in lower case, and otherwise the digest
of the trimmed lower-case text.
-/

namespace MemphisOS

open Ecma

/-- What the modelled functions use of the host platform. -/
structure Host where
  /-- `String.prototype.toLowerCase`. -/
  toLowerCase : Text → Text
  /-- The lower-case hexadecimal SHA-256 digest of the UTF-8 encoding of a text. -/
  sha256 : Text → Text

/-- A hexadecimal digit, in either case. -/
def isHexDigit (c : Char) : Bool := (Json.hexValue c).isSome

/-- The characters `UUID_RE` allows at a position. -/
def uuidAllows (position : ℕ) (c : Char) : Bool :=
  if position ∈ [8, 13, 18, 23] then c = '-'
  else if position = 14 then '1' ≤ c && c ≤ '8'
  else if position = 19 then c ∈ ['8', '9', 'a', 'b', 'A', 'B']
  else isHexDigit c

/-- `UUID_RE.test`. -/
def isUuid (t : Text) : Bool :=
  t.length = 36 && (t.zipIdx.all fun (c, position) => uuidAllows position c)

/-- The normalised identity; `none` when it throws because the identity is empty. -/
def normalizeIdentity (host : Host) (input : Text) : Option Text :=
  let trimmed := host.toLowerCase (trim input)
  if trimmed = [] then none
  else if isUuid trimmed then some trimmed
  else some (host.sha256 trimmed)

end MemphisOS
