import Orchestration.Digest.Blake3
import Orchestration.Plan.Json

/-!
# Fingerprints

A fingerprint names the hash function and gives the hash in hexadecimal. The fingerprint of a text is
that of its UTF-8 bytes, the fingerprint of a plan that of its document on one line.
-/

namespace Orchestration.Digest

/-- A byte as two hexadecimal digits. -/
def hexByte (b : UInt8) : List Char :=
  [Json.hexDigit (b.toNat / 16), Json.hexDigit (b.toNat % 16)]

/-- The fingerprint of a text. -/
def ofText (s : String) : String :=
  "blake3:" ++ String.ofList ((Blake3.hash s.toUTF8).flatMap hexByte)

/-- The fingerprint of a plan. -/
def ofPlan (p : Plan) : String :=
  ofText p.toJson.compact

end Orchestration.Digest
