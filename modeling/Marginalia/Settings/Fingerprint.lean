import Marginalia.Digest.Sha256
import Marginalia.Json.Writer
import Marginalia.Settings.Basic

/-!
# Fingerprints of settings

Two settings with one fingerprint give the same documents. The fingerprint covers the sections that a document
depends on, written in the order of their keys.
-/

namespace Marginalia.Settings

/-- The sections that a document depends on. -/
def relevantParts : List Text := ["languages", "syntax", "lint"]

/-- The relevant sections as text, whatever the order of their members. -/
def relevantText (settings : Value) : Except Fault Text := do
  let members ← relevantParts.mapM fun name => do
    return (name, ← part settings name)
  return Json.write .canonical (.object members)

/-- The digest of the relevant sections in hexadecimal digits. -/
def fingerprint (settings : Value) : Except Fault Text := do
  let text ← relevantText settings
  return (Sha256.digest text.toUtf8).flatMap fun b => hexadecimal 2 b.toNat

end Marginalia.Settings
