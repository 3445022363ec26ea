import ClassDeps.Files.Address
import ClassDeps.Proofs.Files.Places
import Mathlib.Data.List.Basic

/-!
# Paths that are no addresses

The path of a file in a directory is an address of another kind only if the path of the directory begins like a URI.

## Main definitions

* `Address.IsPlain` — paths that are no URI

## Main statements

* `Address.ofPath?_join` — the address of a file in a directory
-/

namespace ClassDeps

theorem Bytes.ofText_append (a b : String) : ofText (a ++ b) = ofText a ++ ofText b := by
  simp [ofText]

namespace Address

/-- A path that is no URI. -/
def IsPlain (path : String) : Prop :=
  scheme.isPrefixOf (Bytes.ofText path) = false

instance (path : String) : Decidable (IsPlain path) :=
  inferInstanceAs (Decidable (_ = false))

/-- A slash ends the part of a path that can make it a URI. -/
theorem isPrefixOf_scheme_slash (b rest : Bytes) :
    scheme.isPrefixOf (b ++ 47 :: rest) = scheme.isPrefixOf b := by
  rw [Bool.eq_iff_iff, List.isPrefixOf_iff_prefix, List.isPrefixOf_iff_prefix]
  constructor
  · intro h
    by_cases hlength : scheme.length ≤ b.length
    · exact List.prefix_of_prefix_length_le h (List.prefix_append _ _) hlength
    · have hslash : b ++ [47] <+: scheme := by
        refine List.prefix_of_prefix_length_le ?_ h (by simp; omega)
        exact ⟨rest, by simp⟩
      have hmem := hslash.subset (List.mem_append_right b List.mem_cons_self)
      exact absurd hmem (by decide)
  · exact fun h => h.trans (List.prefix_append _ _)

/-- The path of a file is no URI if that of its directory is none. -/
theorem IsPlain.join {base name : String} (hbase : IsPlain base) (hname : IsPlain name) (hfile : Path.IsName name) :
    IsPlain (Path.join base name) := by
  have hslash : Bytes.ofText "/" = [47] := by decide
  obtain ⟨-, hjoin⟩ | ⟨-, before, hbefore, hjoin⟩ := Path.join_cases base hfile
  · rw [hjoin]
    exact hname
  · have hplain : IsPlain before := by
      obtain rfl | rfl := hbefore
      · exact hbase
      · rwa [IsPlain, Bytes.ofText_append, hslash, isPrefixOf_scheme_slash] at hbase
    rw [IsPlain, hjoin, Bytes.ofText_append, Bytes.ofText_append, hslash, List.append_assoc, List.singleton_append,
      isPrefixOf_scheme_slash]
    exact hplain

/-- The address of a path that is no URI, and that is none of the two that stand for no file. -/
theorem ofPath?_of_isPlain {path : String} (hplain : IsPlain path) (hempty : path ≠ "") (hmemory : path ≠ ":memory:")
    {address : Address} (h : ofPath? path = some address) : address = .file path true := by
  have hnamed : ¬(path = "" || path = ":memory:") = true := by simp [hempty, hmemory]
  unfold ofPath? at h
  unfold IsPlain at hplain
  simp only [hplain] at h
  split at h
  · cases h
  · rw [if_neg Bool.false_ne_true, named, if_neg hnamed] at h
    exact (Option.some.inj h).symm

/-- The address of a file in a directory whose path is no URI. -/
theorem ofPath?_join {base name : String} (hbase : IsPlain base) (hname : IsPlain name) (hfile : Path.IsName name)
    (hmemory : name.toList.getLast? ≠ some ':') {address : Address}
    (h : ofPath? (Path.join base name) = some address) : address = .file (Path.join base name) true := by
  refine ofPath?_of_isPlain (hbase.join hname hfile) (Path.join_ne_empty base hfile) (fun heq => ?_) h
  have hlast := Path.getLast?_join base hfile
  rw [heq] at hlast
  exact hmemory hlast.symm

end Address

end ClassDeps
