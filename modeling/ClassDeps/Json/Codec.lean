import ClassDeps.Json.Form
import ClassDeps.Json.Parser
import ClassDeps.Json.Printer

/-!
# Values as bytes

## Main definitions

* `Form.toBytes`, `Form.ofBytes?` — the compact document of a value and reading one
-/

namespace ClassDeps.Json.Form

variable {α : Type} (form : Form α)

/-- The compact document of a value. -/
def toBytes (x : α) : Bytes :=
  (form.write x).toBytes

/-- The compact document of a value as a text. -/
def toText (x : α) : String :=
  (form.write x).toText

/-- The value that a document of any spelling stands for. -/
def ofBytes? (bytes : Bytes) : Option α := do
  form.ofJson? (← Json.ofBytes? bytes)

end ClassDeps.Json.Form
