import ClassDeps.Proofs.Files.Sound

/-!
# Trees that agree

A tree that is used further agrees with what it was, except at the places of the logs that are opened and left. Its
stores keep what opening them depends on.

## Main definitions

* `Files.Agree` — two trees agree except at some places
* `Files.Follows` — they agree, and the stores are the same but for contents and users
* `Files.Bounded`, `Files.Confined` — where the logs of some users are, and those of late users

## Main statements

* `Agree.modifyLog` — where the files of a log are
* `Follows.modifyLog`, `Bounded.leaveStores` — uses of stores
-/

namespace ClassDeps

namespace StoreFile

theorem kind_of_check {f : StoreFile} {path : String} {kind : StoreKind} (h : f.check path kind = .ok ()) :
    f.contents.kind = kind := by
  unfold check at h
  split at h
  · cases h
  · rename_i hkind
    exact Decidable.not_not.1 hkind

/-- Whether a file can be used depends on its kind and version. -/
theorem check_congr {f g : StoreFile} (hkind : g.contents.kind = f.contents.kind) (hschema : g.schema = f.schema)
    (path : String) (kind : StoreKind) : g.check path kind = f.check path kind := by
  rw [check, check, hkind, hschema]

end StoreFile

/-- Store files of the same version, kind and place that both ask for a log or both do not. -/
structure StoreFile.Alike (f g : StoreFile) : Prop where
  schema : g.schema = f.schema
  kind : g.contents.kind = f.contents.kind
  place : g.place = f.place
  inUse : g.log.inUse = f.log.inUse

namespace StoreFile.Alike

variable {f g h : StoreFile}

theorem refl (f : StoreFile) : f.Alike f :=
  ⟨rfl, rfl, rfl, rfl⟩

theorem trans (hfg : f.Alike g) (hgh : g.Alike h) : f.Alike h :=
  ⟨hgh.schema.trans hfg.schema, hgh.kind.trans hfg.kind, hgh.place.trans hfg.place, hgh.inUse.trans hfg.inUse⟩

theorem of_eq (h : g = f) : f.Alike g :=
  h ▸ refl f

theorem check_eq (h : f.Alike g) (path : String) (kind : StoreKind) : g.check path kind = f.check path kind :=
  check_congr h.kind h.schema path kind

end StoreFile.Alike

namespace Files

variable {touched touched' : Place → Prop} {t u v : Files} {id : Nat} {place : Place}

/-! ## Entries -/

/-- Trees with the same directories and entries, except that at some places there may be other files. -/
structure Agree (touched : Place → Prop) (t u : Files) : Prop where
  working : u.working = t.working
  directory : ∀ place, t.entryAt? place = some .directory → u.entryAt? place = some .directory
  entry : ∀ place, ¬touched place → u.entryAt? place = t.entryAt? place

namespace Agree

theorem refl (t : Files) : Agree touched t t :=
  ⟨rfl, fun _ h => h, fun _ _ => rfl⟩

theorem trans (h : Agree touched t u) (h' : Agree touched u v) : Agree touched t v where
  working := h'.working.trans h.working
  directory place hplace := h'.directory place (h.directory place hplace)
  entry place hplace := (h'.entry place hplace).trans (h.entry place hplace)

theorem mono (h : Agree touched t u) (htouched : ∀ place, touched place → touched' place) : Agree touched' t u :=
  { h with entry := fun place hplace => h.entry place fun h => hplace (htouched place h) }

theorem of_entries (hworking : u.working = t.working) (hentries : u.entries = t.entries) : Agree touched t u := by
  have hentry (place : Place) : u.entryAt? place = t.entryAt? place := by rw [entryAt?, entryAt?, hentries]
  exact ⟨hworking, fun place h => (hentry place).trans h, fun place _ => hentry place⟩

theorem setEntry (hplace : touched place) (hdirectory : t.entryAt? place ≠ some .directory) (entry : Entry) :
    Agree touched t (t.setEntry place entry) where
  working := rfl
  directory other h := by
    rw [entryAt?_setEntry hdirectory, if_neg]
    · exact h
    · rintro rfl
      exact hdirectory h
  entry other h := by
    rw [entryAt?_setEntry hdirectory, if_neg]
    rintro rfl
    exact h hplace

theorem erase (hplace : touched place) (hdirectory : t.entryAt? place ≠ some .directory) :
    Agree touched t { t with entries := t.entries.erase place } where
  working := rfl
  directory other h := by
    rw [entryAt?_erase hdirectory, if_neg]
    · exact h
    · rintro rfl
      exact hdirectory h
  entry other h := by
    rw [entryAt?_erase hdirectory, if_neg]
    rintro rfl
    exact h hplace

theorem foldl {step : Files → Place → Files} {places : List Place}
    (h : ∀ place ∈ places, ∀ t, Agree touched t (step t place)) (t : Files) :
    Agree touched t (places.foldl step t) := by
  induction places generalizing t with
  | nil => exact .refl t
  | cons place places ih =>
    rw [List.forall_mem_cons] at h
    exact (h.1 t).trans (ih h.2 _)

theorem createLogFile (hplace : touched place) (t : Files) : Agree touched t (t.createLogFile place) := by
  unfold Files.createLogFile
  split
  · exact .refl t
  · rename_i hdirectory
    exact .setEntry hplace hdirectory _

theorem removeLogFile (hplace : touched place) (t : Files) : Agree touched t (t.removeLogFile place) := by
  unfold Files.removeLogFile
  split
  · exact .refl t
  · rename_i hdirectory
    exact .erase hplace hdirectory

/-- The files of a log come and go with its users. -/
theorem modifyLog {change : Log → Log} (h : (change (t.stores.getD id default).log).users.isEmpty ≠
      (t.stores.getD id default).log.users.isEmpty →
        ∀ place ∈ logPlaces (t.stores.getD id default).place, touched place) :
    Agree touched t (t.modifyLog id change) := by
  have hlog : Agree touched t { t with
      stores := t.stores.set id { t.stores.getD id default with
        log := change (t.stores.getD id default).log } } := .of_entries rfl rfl
  unfold Files.modifyLog
  simp only
  split
  · exact hlog
  · rename_i hchange
    have hplaces := h hchange
    split
    · exact hlog.trans (.foldl (fun place hplace => createLogFile (hplaces place hplace)) _)
    · split
      · exact hlog.trans (.foldl (fun place hplace => removeLogFile (hplaces place hplace)) _)
      · exact hlog

end Agree

/-! ## Stores -/

/-- A tree after its stores were used. -/
structure Follows (touched : Place → Prop) (t u : Files) : Prop extends Agree touched t u where
  length : u.stores.length = t.stores.length
  alike : ∀ id, (t.stores.getD id default).Alike (u.stores.getD id default)

namespace Follows

theorem refl (t : Files) : Follows touched t t :=
  ⟨.refl t, rfl, fun _ => .refl _⟩

theorem trans (h : Follows touched t u) (h' : Follows touched u v) : Follows touched t v :=
  ⟨h.toAgree.trans h'.toAgree, h'.length.trans h.length, fun id => (h.alike id).trans (h'.alike id)⟩

theorem mono (h : Follows touched t u) (htouched : ∀ place, touched place → touched' place) : Follows touched' t u :=
  { h with toAgree := h.toAgree.mono htouched }

theorem of_agree (h : Agree touched t u) (hstores : u.stores = t.stores) : Follows touched t u :=
  ⟨h, congrArg List.length hstores, fun id => .of_eq (by rw [hstores])⟩

theorem modifyLog {change : Log → Log}
    (hinUse : (change (t.stores.getD id default).log).inUse = (t.stores.getD id default).log.inUse)
    (h : (change (t.stores.getD id default).log).users.isEmpty ≠ (t.stores.getD id default).log.users.isEmpty →
      ∀ place ∈ logPlaces (t.stores.getD id default).place, touched place) :
    Follows touched t (t.modifyLog id change) where
  toAgree := .modifyLog h
  length := t.length_modifyLog id change
  alike other := by
    rw [stores_modifyLog, getD_setLog]
    split
    · rename_i hother
      rw [hother.1]
      exact ⟨rfl, rfl, rfl, hinUse⟩
    · exact .refl _

end Follows

/-! ## Users and their logs -/

/-- The files of logs that some users have open are at some places. -/
def Bounded (touched : Place → Prop) (who : Nat → Prop) (t : Files) : Prop :=
  ∀ id, ∀ user ∈ (t.stores.getD id default).log.users, who user →
    ∀ place ∈ logPlaces (t.stores.getD id default).place, touched place

namespace Bounded

variable {who : Nat → Prop}

theorem leave (h : Bounded touched who t) (id : Nat) (gone : Nat → Bool) :
    Bounded touched who (t.modifyLog id (.leave gone)) := by
  intro other user huser hwho place hplace
  rw [stores_modifyLog, getD_setLog] at huser hplace
  split at huser
  · rename_i hother
    rw [if_pos hother] at hplace
    exact h id user (List.mem_filter.1 huser).1 hwho place hplace
  · rename_i hother
    rw [if_neg hother] at hplace
    exact h other user huser hwho place hplace

/-- When such users leave, nothing changes but the files of their logs. -/
theorem leaveStores (h : Bounded touched who t) {gone : Nat → Bool} (hgone : ∀ user, gone user = true → who user) :
    Follows touched t (t.leaveStores gone) ∧ Bounded touched who (t.leaveStores gone) := by
  have hall (ids : List Nat) (t : Files) (h : Bounded touched who t) :
      Follows touched t (ids.foldl (fun t id => t.modifyLog id (.leave gone)) t) ∧
        Bounded touched who (ids.foldl (fun t id => t.modifyLog id (.leave gone)) t) := by
    induction ids generalizing t with
    | nil => exact ⟨.refl t, h⟩
    | cons id ids ih =>
      have hleave : Follows touched t (t.modifyLog id (.leave gone)) := by
        refine .modifyLog rfl fun hchange place hplace => ?_
        -- A log that is empty afterwards has lost a user who is gone.
        obtain ⟨user, huser, hleft⟩ : ∃ user ∈ (t.stores.getD id default).log.users, gone user = true := by
          by_contra hnone
          refine hchange ?_
          have hsame : (t.stores.getD id default).log.users.filter (fun user => !gone user) =
              (t.stores.getD id default).log.users :=
            List.filter_eq_self.2 fun user huser => by
              rw [Bool.not_eq_true']
              exact Bool.eq_false_iff.2 fun hgone => hnone ⟨user, huser, hgone⟩
          simp only [Log.leave, hsame]
        exact h id user huser (hgone user hleft) place hplace
      obtain ⟨hfollows, hbounded⟩ := ih _ (h.leave id gone)
      exact ⟨hleave.trans hfollows, hbounded⟩
  exact hall _ t h

end Bounded

/-- The files of logs that users from some number on have open are at some places. -/
def Confined (touched : Place → Prop) (n : Nat) (t : Files) : Prop :=
  ∀ id, ∀ user ∈ (t.stores.getD id default).log.users, n ≤ user →
    ∀ place ∈ logPlaces (t.stores.getD id default).place, touched place

theorem Sound.confined (h : t.Sound) : Confined touched t.users t :=
  fun id user huser hle => absurd (h.users id user huser) (Nat.not_lt_of_le hle)

theorem Confined.of_stores {n : Nat} (h : Confined touched n t) (hstores : u.stores = t.stores) :
    Confined touched n u := by
  rw [Confined, hstores]
  exact h

/-- When late users leave, nothing changes but the files of their logs. -/
theorem Confined.leaveStores {n : Nat} (h : Confined touched n t) {gone : Nat → Bool}
    (hgone : ∀ user, gone user = true → n ≤ user) :
    Follows touched t (t.leaveStores gone) ∧ Confined touched n (t.leaveStores gone) :=
  Bounded.leaveStores h hgone

end Files

end ClassDeps
