import ClassDeps.Proofs.Files.Reopening

/-!
# Rows at the place of a path

What the store at the place of a path holds is asked for by the path, whether there is a store or not. Opening stores
changes no answer: a store that was there stays, and one that is new is empty.

## Main definitions

* `Files.rowsAt` — the rows of the store at the place of a path
* `Files.Stays` — stores stay at their places

## Main statements

* `stays_openStore` — opening a store, whatever becomes of it
* `Stays.rowsAt_eq` — where stores stay and new ones are empty
-/

namespace ClassDeps.Files

variable {t u v : Files} {path : String} {place : Place} {id : Nat}

/-! ## Stores that stay -/

/-- Stores stay at their places, unless these are places of logs. -/
structure Stays (t u : Files) : Prop where
  working : u.working = t.working
  store : ∀ place id, place.Aside → t.entryAt? place = some (.store id) → u.entryAt? place = some (.store id)

namespace Stays

theorem refl (t : Files) : Stays t t :=
  ⟨rfl, fun _ _ _ h => h⟩

theorem trans (h : Stays t u) (h' : Stays u v) : Stays t v where
  working := h'.working.trans h.working
  store place id haside hstore := h'.store place id haside (h.store place id haside hstore)

theorem of_agree (h : Agree (fun place => ¬place.Aside) t u) : Stays t u where
  working := h.working
  store place _ haside hstore := (h.entry place fun hnot => hnot haside).trans hstore

theorem of_furnished (h : t.Furnished u) : Stays t u :=
  ⟨h.working_eq, fun _ _ _ hstore => h.entry hstore⟩

/-- What comes to a place where there is no store. -/
theorem setEntry (hdirectory : t.entryAt? place ≠ some .directory) (hstore : ∀ id, t.entryAt? place ≠ some (.store id))
    (entry : Entry) : Stays t (t.setEntry place entry) where
  working := rfl
  store other id _ hother := by
    rw [entryAt?_setEntry hdirectory, if_neg]
    · exact hother
    · rintro rfl
      exact hstore id hother

theorem modifyLog (t : Files) (id : Nat) (change : Log → Log) : Stays t (t.modifyLog id change) :=
  .of_agree (.modifyLog fun _ _ hplace => not_aside_of_mem_logPlaces hplace)

theorem leaveStores (t : Files) (gone : Nat → Bool) : Stays t (t.leaveStores gone) := by
  unfold Files.leaveStores
  generalize List.range t.stores.length = ids
  induction ids generalizing t with
  | nil => exact .refl t
  | cons id ids ih => exact (modifyLog t id _).trans (ih _)

theorem joinStore (t : Files) (path : String) (place : Place) (id : Nat) (kind : StoreKind) (journal : JournalMode) :
    Stays t (t.joinStore path place id kind journal).2 := by
  have hjoined (log : Log) : Stays t { t.modifyLog id fun _ => log with users := t.users + 1 } :=
    { modifyLog t id fun _ => log with }
  rcases hjoin : t.joinStore path place id kind journal with ⟨result, u⟩
  cases join_joinStore hjoin with
  | barred => exact .refl _
  | joined => exact hjoined _
  | gone => exact (hjoined _).trans (leaveStores _ _)

/-- A new store, or an empty file where none can be made. -/
theorem createStore (hdirectory : t.entryAt? place ≠ some .directory) (hstore : ∀ id, t.entryAt? place ≠ some (.store id))
    (kind : StoreKind) (journal : JournalMode) : Stays t (t.createStore place kind journal).2 := by
  unfold Files.createStore
  split
  · have hset : Stays (t.addStore (some place) kind).2
        ((t.addStore (some place) kind).2.setEntry place (.store t.stores.length)) :=
      setEntry (t := (t.addStore (some place) kind).2) hdirectory hstore _
    have hadded : Stays t ((t.addStore (some place) kind).2.setEntry place (.store t.stores.length)) :=
      ⟨hset.working, hset.store⟩
    have hlog : ¬(place.beside logEnding).Aside := fun haside => haside place logEnding List.mem_cons_self rfl
    have hremoved := hadded.trans (of_agree (.removeLogFile hlog _))
    exact hremoved.trans
      (modifyLog _ t.stores.length fun _ => Log.start journal (t.addStore (some place) kind).1.user)
  · simp only
    split
    · exact .refl t
    · exact setEntry hdirectory hstore _

/-- Opening a store, whatever becomes of it, leaves the others where they are. -/
theorem openStore (t : Files) (path : String) (kind : StoreKind) (journal : JournalMode) :
    Stays t (t.openStore path kind journal).2 := by
  rcases hopen : t.openStore path kind journal with ⟨result, u⟩
  obtain ⟨created, hfurnished, hattempt, -⟩ := attempt_openStore hopen
  refine (of_furnished hfurnished).trans ?_
  cases hattempt with
  | refused => exact .refl _
  | nowhere => exact ⟨rfl, fun _ _ _ h => h⟩
  | joins _ _ _ hjoin =>
    rw [← hjoin]
    exact joinStore ..
  | creates _ hplace hfree hcreate =>
    rw [← hcreate]
    exact createStore (not_directory_of_storePlace? hplace) hfree kind journal

end Stays

/-! ## Rows -/

/-- The rows of the store at the place of a path. There are none if there is no store. -/
def rowsAt (t : Files) (path : String) : Ordered.Map Bytes Bytes :=
  match t.entryAt? (t.target path) with
  | some (.store id) => (t.contents id).rows
  | _ => .empty

theorem rowsAt_of_store (h : t.entryAt? (t.target path) = some (.store id)) : t.rowsAt path = (t.contents id).rows := by
  rw [rowsAt, h]

theorem rowsAt_of_free (h : ∀ id, t.entryAt? (t.target path) ≠ some (.store id)) : t.rowsAt path = .empty := by
  rw [rowsAt]
  split
  · rename_i id hstore
    exact absurd hstore (h id)
  · rfl

/-- The rows at a place depend on the store that stands there. -/
theorem rowsAt_congr (hworking : u.working = t.working)
    (hstore : ∀ id, u.entryAt? (t.target path) = some (.store id) ↔ t.entryAt? (t.target path) = some (.store id))
    (hcontents : ∀ id, t.entryAt? (t.target path) = some (.store id) → u.contents id = t.contents id) :
    u.rowsAt path = t.rowsAt path := by
  by_cases hfree : ∃ id, t.entryAt? (t.target path) = some (.store id)
  · obtain ⟨id, hid⟩ := hfree
    rw [rowsAt_of_store hid, ← hcontents id hid]
    exact rowsAt_of_store ((target_of_working hworking path).symm ▸ (hstore id).2 hid)
  · have hnone (id : Nat) : t.entryAt? (t.target path) ≠ some (.store id) := fun hid => hfree ⟨id, hid⟩
    rw [rowsAt_of_free hnone]
    refine rowsAt_of_free fun id hid => hnone id ?_
    rw [target_of_working hworking] at hid
    exact (hstore id).1 hid

/-- Where stores stay with what they hold and new ones are empty, the rows at a place are the same. -/
theorem Stays.rowsAt_eq (h : Stays t u) (ht : t.Sound) (hkeeps : t.Keeps u)
    (hspares : Spares (fun _ => False) (fun contents => ∃ kind, contents = .empty kind) t u)
    (haside : (t.target path).Aside) : u.rowsAt path = t.rowsAt path := by
  by_cases hfree : ∃ id, t.entryAt? (t.target path) = some (.store id)
  · obtain ⟨id, hid⟩ := hfree
    have hstays := h.store _ id haside hid
    rw [← target_of_working h.working] at hstays
    rw [rowsAt_of_store hid, rowsAt_of_store hstays, hkeeps.contents (ht.entry _ _ hid).1]
  · have hnone (id : Nat) : t.entryAt? (t.target path) ≠ some (.store id) := fun hid => hfree ⟨id, hid⟩
    rw [rowsAt_of_free hnone]
    by_cases hnew : ∃ id, u.entryAt? (u.target path) = some (.store id)
    · obtain ⟨id, hid⟩ := hnew
      rw [rowsAt_of_store hid]
      rw [target_of_working h.working] at hid
      have hlater : t.stores.length ≤ id := (hspares.store _ id hid).resolve_left (hnone id)
      obtain hsame | ⟨kind, hempty⟩ := hspares.contents id
      · rw [hsame, Files.contents, List.getD_eq_getElem?_getD, List.getElem?_eq_none hlater]
        rfl
      · rw [hempty]
        cases kind <;> rfl
    · exact rowsAt_of_free fun id hid => hnew ⟨id, hid⟩

end ClassDeps.Files
