import Dropway.Api.Uploads

/-! The digest that the dashboard sends with a deploy
(apps/dashboard/lib/deploy-manifest.ts). -/

namespace Dropway.Dashboard
open Lib Api

/-- `<` on strings compares code units. -/
def ByPath (a b : ManifestFile) : Prop := ¬ b.path.utf16 < a.path.utf16

instance : DecidableRel ByPath := fun a b => inferInstanceAs (Decidable (¬ b.path.utf16 < a.path.utf16))

def computeDigest (sha256Hex : Sha256) (files : List ManifestFile) : Text :=
  sha256Hex (Utf8.encode ((files.insertionSort ByPath).flatMap digestLine))

end Dropway.Dashboard
