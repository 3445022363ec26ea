import ClassDeps.Error
import ClassDeps.Text.Quoted

/-!
# Texts of cache failures

## Main definitions

* `FormatFault.message`, `CacheError.message` — the wording of cache failures
-/

namespace ClassDeps

def FormatFault.message : FormatFault → String
  | notADocument => "Invalid class document: not a document of this kind"
  | empty what => s!"Empty {what}"
  | descriptor method text =>
    s!"Method {method} has invalid descriptor {Text.quote text}"
  | other text => text

def CacheError.message : CacheError → String
  | corrupted error => s!"Dependency cache corrupted: {error.message}"
  | format fault => s!"Malformed class metadata: {fault.message}"

end ClassDeps
