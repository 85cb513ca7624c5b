import FormCalc.Command.Files

/-!
# Files before and after a write

What a run can rely on when it writes a file.

* `Files.target`: the place of the file that a write would change.
* `Files.Written`: files that differ from others in what is at one place, and in nothing else.
* `Files.Alike`: files with the same folders, and with files at the same places.

A write puts bytes at its target (`Files.write_eq`), which changes nothing else
(`Files.written_put`) and can be read (`Files.read_put`).  The target does not depend on what is in
the files (`Files.Alike.target_eq`).
-/

namespace FormCalc.Files

variable {fs fs' after : Files} {path : String} {place : List String} {bytes : List UInt8}

/-! ### One file changes -/

theorem lookup_filter_ne {α β : Type} [BEq α] [LawfulBEq α] {a b : α} (h : b ≠ a)
    (entries : List (α × β)) : (entries.filter (·.1 != a)).lookup b = entries.lookup b := by
  induction entries with
  | nil => rfl
  | cons entry rest ih =>
    obtain ⟨key, value⟩ := entry
    by_cases hkey : key = a
    · have hb : (b == key) = false := beq_eq_false_iff_ne.mpr (hkey ▸ h)
      rw [List.filter_cons_of_neg (by simp [hkey]), ih, List.lookup_cons, hb]
    · rw [List.filter_cons_of_pos (by simp [hkey]), List.lookup_cons, List.lookup_cons, ih]

/-- Whether files differ from others in the bytes at one place, and in nothing else. -/
structure Written (fs : Files) (place : List String) (bytes : List UInt8) (after : Files) :
    Prop where
  folders : after.folders = fs.folders
  here : after.here = fs.here
  there : after.at? place = some bytes
  elsewhere : ∀ other, other ≠ place → after.at? other = fs.at? other

theorem written_put (fs : Files) (place : List String) (bytes : List UInt8) :
    fs.Written place bytes (fs.put place bytes) := by
  refine ⟨rfl, rfl, ?_, fun other h => ?_⟩
  · rw [put, at?, List.lookup_cons_self]
  · rw [put, at?, List.lookup_cons, beq_eq_false_iff_ne.mpr h, lookup_filter_ne h]
    rfl

theorem checkFolder_eq_ok : fs.checkFolder place = .ok () ↔ fs.isFolder place = true := by
  unfold checkFolder
  split
  · simp [*]
  · split <;> simp [*]

/-- Every step of a walk that comes to its end starts in a folder, so other files do not matter. -/
theorem follow_eq_ok (hfolders : fs'.folders = fs.folders) {names : List String}
    {start : List String} (h : fs.follow start names = .ok place) :
    fs'.follow start names = .ok place := by
  induction names generalizing start with
  | nil => exact h
  | cons name rest ih =>
    rw [follow] at h ⊢
    cases hcheck : fs.checkFolder start with
    | error error =>
      rw [hcheck] at h
      cases h
    | ok _ =>
      have hfolder : fs'.isFolder start = true := by
        rw [isFolder, hfolders]
        exact checkFolder_eq_ok.mp hcheck
      rw [hcheck] at h
      rw [checkFolder_eq_ok.mpr hfolder]
      exact ih h

theorem Written.place_eq_ok (h : fs.Written place bytes after) {other : List String}
    (hplace : fs.place path = .ok other) : after.place path = .ok other := by
  unfold Files.place at hplace ⊢
  split at hplace
  · cases hplace
  · rw [if_neg (by assumption), h.here]
    exact follow_eq_ok h.folders hplace

/-! ### Reading what was written -/

/-- The place of the file that a write to a path would change, or why it would fail. -/
def target (fs : Files) (path : String) : Except FileError (List String) := do
  let place ← fs.place path
  if fs.isFolder place || asksFolder path then .error .isFolder
  else if isOverlong place then .error .nameTooLong
  else .ok place

/-- A write changes the file at its target, if it has one. -/
theorem write_eq (fs : Files) (path : String) (bytes : List UInt8) :
    fs.write path bytes = (fs.target path).map (fs.put · bytes) := by
  unfold write target
  cases fs.place path with
  | error error => rfl
  | ok place =>
    show (if (fs.isFolder place || asksFolder path) = true then Except.error FileError.isFolder
      else if isOverlong place = true then .error .nameTooLong else .ok (fs.put place bytes)) =
        Except.map (fs.put · bytes)
          (if (fs.isFolder place || asksFolder path) = true then .error .isFolder
          else if isOverlong place = true then .error .nameTooLong else .ok place)
    rw [apply_ite (Except.map _), apply_ite (Except.map _)]
    rfl

theorem place_of_target (h : fs.target path = .ok place) :
    fs.place path = .ok place ∧ fs.isFolder place = false ∧ asksFolder path = false := by
  unfold target at h
  cases hplace : fs.place path with
  | error error =>
    rw [hplace] at h
    cases h
  | ok other =>
    rw [hplace] at h
    change (if (fs.isFolder other || asksFolder path) = true then Except.error FileError.isFolder
      else if isOverlong other = true then .error .nameTooLong else .ok other) = _ at h
    split at h
    · cases h
    rename_i hfolder
    split at h
    · cases h
    obtain rfl := Except.ok.inj h
    rw [Bool.not_eq_true, Bool.or_eq_false_iff] at hfolder
    exact ⟨rfl, hfolder⟩

/-- **What is written can be read.** -/
theorem read_put (h : fs.target path = .ok place) (bytes : List UInt8) :
    (fs.put place bytes).read path = .ok bytes := by
  obtain ⟨hplace, hfolder, hasks⟩ := place_of_target h
  have hwritten := written_put fs place bytes
  have hfolder' : (fs.put place bytes).isFolder place = false := hfolder
  rw [read, hwritten.place_eq_ok hplace]
  simp only [bind, Except.bind, hfolder', hwritten.there, hasks, Bool.false_eq_true, if_false]

/-- A write that succeeds changes one file, which can then be read. -/
theorem written_of_write (h : fs.write path bytes = .ok after) : ∃ place,
    fs.place path = .ok place ∧ fs.Written place bytes after ∧ after.read path = .ok bytes := by
  rw [write_eq] at h
  cases htarget : fs.target path with
  | error error =>
    rw [htarget] at h
    cases h
  | ok place =>
    rw [htarget] at h
    obtain rfl := Except.ok.inj h
    exact ⟨place, (place_of_target htarget).1, written_put fs place bytes, read_put htarget bytes⟩

/-- The files with other bytes at one place, or as they are. -/
def changed (fs : Files) : Option (List String × List UInt8) → Files
  | none => fs
  | some (place, bytes) => fs.put place bytes

/-! ### Files with other bytes in them -/

/-- Whether files have the same folders and files as others, whatever is in the files. -/
structure Alike (fs fs' : Files) : Prop where
  folders : fs'.folders = fs.folders
  here : fs'.here = fs.here
  files : ∀ place, (fs'.at? place).isSome = (fs.at? place).isSome

namespace Alike

variable (h : fs.Alike fs')
include h

theorem isFolder_eq (place : List String) : fs'.isFolder place = fs.isFolder place := by
  rw [isFolder, h.folders, isFolder]

theorem checkFolder_eq (place : List String) : fs'.checkFolder place = fs.checkFolder place := by
  rw [checkFolder, h.isFolder_eq, h.files, checkFolder]

theorem follow_eq (names start : List String) :
    fs'.follow start names = fs.follow start names := by
  induction names generalizing start with
  | nil => rfl
  | cons name rest ih =>
    rw [follow, follow, h.checkFolder_eq]
    exact congrArg _ (funext fun _ => ih _)

theorem place_eq (path : String) : fs'.place path = fs.place path := by
  rw [Files.place, Files.place, h.here, h.follow_eq]

/-- Where a write leads does not depend on what is in the files. -/
theorem target_eq (path : String) : fs'.target path = fs.target path := by
  rw [target, target, h.place_eq]
  exact congrArg _ (funext fun place => by rw [h.isFolder_eq])

end Alike

end FormCalc.Files
