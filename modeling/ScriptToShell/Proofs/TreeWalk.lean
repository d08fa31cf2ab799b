import ScriptToShell.Proofs.ProjectBuild
import ScriptToShell.Proofs.Trail

/-!
# Following a path

Where a path leads in a tree is where its trail leads, step by step, from
where it starts (`FileTree.reach`). A path to a file ends in a step into the
directory of the file, and that is all a path to be written to needs: it
leads into a directory under a name (`FileTree.LeadsInto`), and a script
written to it is put there and nowhere else
(`FileTree.LeadsTo.yields_writeScript`).

A **file system** is a tree as one finds it on a disk (`FileTree.IsFileSystem`):
names are proper, and whatever there is stands in a directory.
-/

namespace ScriptToShell

open ScriptToShell.Path (IsStep isIdle)

namespace FileTree

variable {t t' : FileTree}

/-! ## Where steps lead -/

/-- **Where one segment leads** from a place: nowhere unless the place is a
directory and has an entry of that name. -/
def enter (t : FileTree) (place : List String) (segment : List Char) : Option (List String) :=
  if t.kindAt? place ≠ some .directory then none
  else if isIdle segment then some place
  else if segment = ['.', '.'] then some place.dropLast
  else
    let next := place ++ [String.ofList segment]
    if (t.kindAt? next).isSome then some next else none

/-- Where segments lead, one behind the other. -/
def reach (t : FileTree) (place : List String) (segments : List (List Char)) :
    Option (List String) :=
  segments.foldlM t.enter place

section Reach

variable {place found next : List String} {segment : List Char} {segments : List (List Char)}
  {kind : FileKind}

theorem enter_eq_some_iff : t.enter place segment = some next
    ↔ t.kindAt? place = some .directory
      ∧ (isIdle segment = true ∧ next = place
        ∨ segment = ['.', '.'] ∧ next = place.dropLast
        ∨ isIdle segment = false ∧ segment ≠ ['.', '.'] ∧ next = place ++ [String.ofList segment]
          ∧ (t.kindAt? next).isSome = true) := by
  have hup : isIdle ['.', '.'] = false := rfl
  unfold enter
  grind

theorem directory_of_enter (h : t.enter place segment = some next) :
    t.kindAt? place = some .directory :=
  (enter_eq_some_iff.1 h).1

theorem enter_idle (hplace : t.kindAt? place = some .directory) (h : isIdle segment = true) :
    t.enter place segment = some place :=
  enter_eq_some_iff.2 ⟨hplace, .inl ⟨h, rfl⟩⟩

theorem reach_cons (place : List String) (segment : List Char) (segments : List (List Char)) :
    t.reach place (segment :: segments) = (t.enter place segment).bind (t.reach · segments) :=
  List.foldlM_cons

theorem reach_append (place : List String) (segments segments' : List (List Char)) :
    t.reach place (segments ++ segments') = (t.reach place segments).bind (t.reach · segments') :=
  List.foldlM_append

theorem follow_cons_of_enter (h : t.enter place segment = some next) (rest : List (List Char)) :
    t.follow place (segment :: rest) = t.follow next rest := by
  obtain ⟨hplace, ⟨hidle, rfl⟩ | ⟨rfl, rfl⟩ | ⟨hidle, hup, rfl, hnext⟩⟩ := enter_eq_some_iff.1 h
  all_goals rw [follow.eq_2, if_neg (not_not_intro hplace)]
  · rw [if_pos hidle]
  · rw [if_neg (by decide), if_pos rfl]
  · rw [if_neg (by rw [hidle]; exact Bool.false_ne_true), if_neg hup]
    exact if_pos hnext

theorem follow_cons_of_enter_eq_none (h : t.enter place segment = none) (rest : List (List Char)) :
    t.follow place (segment :: rest) ≠ .ok (.taken found kind) := by
  intro hfollow
  rw [follow.eq_2] at hfollow
  rw [enter] at h
  split at h
  · next hplace =>
    rw [if_pos hplace] at hfollow
    cases hfollow
  · next hplace =>
    rw [if_neg hplace] at hfollow
    split at h
    · cases h
    · next hidle =>
      rw [if_neg hidle] at hfollow
      split at h
      · cases h
      · next hup =>
        rw [if_neg hup] at hfollow
        dsimp only at h hfollow
        split at h
        · cases h
        · next hnext =>
          rw [if_neg hnext] at hfollow
          split at hfollow <;> cases hfollow

/-- **A way leads to something** exactly if its segments lead to its
place. -/
theorem follow_eq_taken_iff : t.follow place segments = .ok (.taken found kind)
    ↔ t.reach place segments = some found ∧ t.kindAt? found = some kind := by
  induction segments generalizing place with
  | nil =>
    unfold follow reach
    rw [List.foldlM_nil]
    constructor
    · intro h
      split at h
      · next k hkind =>
        cases h
        exact ⟨rfl, hkind⟩
      · cases h
    · rintro ⟨hplace, hkind⟩
      cases hplace
      rw [hkind]
  | cons segment rest ih =>
    rw [reach_cons]
    cases hnext : t.enter place segment with
    | none => exact iff_of_false (follow_cons_of_enter_eq_none hnext rest) nofun
    | some next => rw [follow_cons_of_enter hnext, ih, Option.bind_some]

/-- A way goes on from where its first part leads. -/
theorem follow_append (h : t.reach place segments = some next) (rest : List (List Char)) :
    t.follow place (segments ++ rest) = t.follow next rest := by
  induction segments generalizing place with
  | nil =>
    cases h
    rfl
  | cons segment segments ih =>
    rw [reach_cons] at h
    obtain ⟨place', hplace', hrest⟩ := Option.bind_eq_some_iff.1 h
    rw [List.cons_append, follow_cons_of_enter hplace', ih hrest]

theorem directory_of_reach (h : t.reach place segments = some found)
    (hfound : t.kindAt? found = some .directory) : t.kindAt? place = some .directory := by
  cases segments with
  | nil =>
    cases h
    exact hfound
  | cons segment segments =>
    rw [reach_cons] at h
    obtain ⟨next, hnext, -⟩ := Option.bind_eq_some_iff.1 h
    exact directory_of_enter hnext

/-- Idle segments can be left out. -/
theorem reach_filter (h : t.reach place segments = some found) :
    t.reach place (segments.filter (!isIdle ·)) = some found := by
  induction segments generalizing place with
  | nil => exact h
  | cons segment segments ih =>
    rw [reach_cons] at h
    obtain ⟨next, hnext, hrest⟩ := Option.bind_eq_some_iff.1 h
    by_cases hidle : isIdle segment = true
    · rw [enter_idle (directory_of_enter hnext) hidle] at hnext
      cases hnext
      rw [List.filter_cons_of_neg (by rw [hidle]; exact Bool.false_ne_true)]
      exact ih hrest
    · rw [List.filter_cons_of_pos (by simpa using hidle), reach_cons, hnext]
      exact ih hrest

/-- Idle segments can be put in where a way ends in a directory. -/
theorem reach_of_filter (h : t.reach place (segments.filter (!isIdle ·)) = some found)
    (hfound : t.kindAt? found = some .directory) : t.reach place segments = some found := by
  induction segments generalizing place with
  | nil => exact h
  | cons segment segments ih =>
    by_cases hidle : isIdle segment = true
    · rw [List.filter_cons_of_neg (by rw [hidle]; exact Bool.false_ne_true)] at h
      rw [reach_cons, enter_idle (directory_of_reach h hfound) hidle]
      exact ih h
    · rw [List.filter_cons_of_pos (by simpa using hidle), reach_cons] at h
      obtain ⟨next, hnext, hrest⟩ := Option.bind_eq_some_iff.1 h
      rw [reach_cons, hnext]
      exact ih hrest

/-- **Steps down lead to the place they spell.** -/
theorem eq_append_of_reach (hsteps : ∀ s ∈ segments, IsStep s ∧ s ≠ ['.', '.'])
    (h : t.reach place segments = some found) : found = place ++ segments.map String.ofList := by
  induction segments generalizing place with
  | nil =>
    cases h
    exact (List.append_nil _).symm
  | cons segment segments ih =>
    rw [List.forall_mem_cons] at hsteps
    rw [reach_cons] at h
    obtain ⟨next, henter, hrest⟩ := Option.bind_eq_some_iff.1 h
    obtain ⟨-, ⟨hidle, -⟩ | ⟨hup, -⟩ | ⟨-, -, rfl, -⟩⟩ := enter_eq_some_iff.1 henter
    · cases hsteps.1.1.2.symm.trans hidle
    · exact absurd hup hsteps.1.2
    · rw [ih hsteps.2 hrest, List.append_assoc]
      rfl

theorem Within.enter_eq (h : t.Within t') (henter : t.enter place segment = some next) :
    t'.enter place segment = some next := by
  obtain ⟨hplace, hnext⟩ := enter_eq_some_iff.1 henter
  refine enter_eq_some_iff.2 ⟨h.kindAt _ _ hplace, hnext.imp_right (Or.imp_right ?_)⟩
  rintro ⟨hidle, hup, heq, hsome⟩
  obtain ⟨kind, hkind⟩ := Option.isSome_iff_exists.1 hsome
  exact ⟨hidle, hup, heq, Option.isSome_iff_exists.2 ⟨kind, h.kindAt _ _ hkind⟩⟩

theorem Within.reach_eq (h : t.Within t') (hreach : t.reach place segments = some found) :
    t'.reach place segments = some found := by
  induction segments generalizing place with
  | nil => exact hreach
  | cons segment segments ih =>
    rw [reach_cons] at hreach ⊢
    obtain ⟨next, hnext, hrest⟩ := Option.bind_eq_some_iff.1 hreach
    rw [h.enter_eq hnext]
    exact ih hrest

end Reach

/-! ## Where a path leads -/

/-- Where a path starts. -/
def startOf (t : FileTree) (path : Path) : List String := if path.isAbsolute then [] else t.current

section Locate

variable {path : Path} {found : List String} {kind : FileKind}

/-- **A path leads where its trail leads.** -/
theorem reach_trail_of_locate (h : t.locate path = .ok (.taken found kind)) :
    t.reach (t.startOf path) path.trail = some found ∧ t.kindAt? found = some kind := by
  unfold locate at h
  split at h
  · cases h
  · obtain ⟨hreach, hkind⟩ := follow_eq_taken_iff.1 h
    exact ⟨reach_filter hreach, hkind⟩

/-- Where a trail leads to a directory, so does the path, unless it is
empty. -/
theorem locate_of_reach_trail (h : t.reach (t.startOf path) path.trail = some found)
    (hfound : t.kindAt? found = some .directory) (hempty : path.text.isEmpty = false) :
    t.locate path = .ok (.taken found .directory) := by
  unfold locate
  rw [hempty, if_neg Bool.false_ne_true]
  exact follow_eq_taken_iff.2 ⟨reach_of_filter h hfound, hfound⟩

/-- **A path that ends in a step** leads to an entry of the directory that
the steps before lead to, or to a free name in it. -/
theorem locate_eq_follow {steps : List (List Char)} {last : List Char} {directory : List String}
    (htrail : path.trail = steps ++ [last]) (hends : path.endsInStep = true)
    (hreach : t.reach (t.startOf path) steps = some directory)
    (hdirectory : t.kindAt? directory = some .directory) :
    t.locate path = t.follow directory [last] := by
  obtain ⟨before, idles, hsegments, rfl, hidles⟩ := Path.exists_segments htrail
  have hnil : idles = [] := by
    unfold Path.endsInStep at hends
    by_contra hne
    obtain ⟨inner, idle, rfl⟩ := (List.eq_nil_or_concat' idles).resolve_left hne
    rw [hsegments, ← List.cons_append, ← List.append_assoc, List.getLast?_concat,
      Option.any_some, hidles idle (by simp)] at hends
    exact Bool.noConfusion hends
  unfold locate
  rw [(Path.text_of_endsInStep hends).1, if_neg Bool.false_ne_true, hsegments, hnil]
  exact follow_append (reach_of_filter hreach hdirectory) [last]

end Locate

/-! ## File systems -/

/-- **A file system**: a tree in which names are proper, a place is that of a
file or of a directory, whatever there is stands in a directory, and relative
paths start in one. -/
structure IsFileSystem (t : FileTree) : Prop extends t.WellFormed where
  /-- The names on the way to a directory are proper. -/
  directoryNames : ∀ place ∈ t.directories, ∀ name ∈ place, IsEntryName name
  /-- The place of a file is no directory. -/
  fileKinds : ∀ entry ∈ t.files, t.kindAt? entry.1 = some .file
  /-- Whatever there is stands in a directory. -/
  parents : ∀ place ∈ t.directories ++ t.files.map (·.1), t.kindAt? place.dropLast = some .directory
  /-- Relative paths start in a directory. -/
  currentKind : t.kindAt? t.current = some .directory

instance (t : FileTree) : Decidable t.IsFileSystem :=
  decidable_of_iff (t.WellFormed ∧ (∀ place ∈ t.directories, ∀ name ∈ place, IsEntryName name)
    ∧ (∀ entry ∈ t.files, t.kindAt? entry.1 = some .file)
    ∧ (∀ place ∈ t.directories ++ t.files.map (·.1), t.kindAt? place.dropLast = some .directory)
    ∧ t.kindAt? t.current = some .directory)
    ⟨fun h => ⟨h.1, h.2.1, h.2.2.1, h.2.2.2.1, h.2.2.2.2⟩,
      fun h => ⟨h.toWellFormed, h.directoryNames, h.fileKinds, h.parents, h.currentKind⟩⟩

theorem kindAt?_nil (t : FileTree) : t.kindAt? [] = some .directory := rfl

theorem mem_of_kindAt? {place : List String} {kind : FileKind} (h : t.kindAt? place = some kind) :
    place = [] ∨ place ∈ t.directories ++ t.files.map (·.1) := by
  unfold kindAt? at h
  split at h
  · next hdirectory =>
    rcases Bool.or_eq_true_iff.1 hdirectory with hnil | hmem
    · exact .inl (of_decide_eq_true hnil)
    · exact .inr (List.mem_append_left _ (by simpa using hmem))
  · obtain ⟨file, hfile, -⟩ := Option.map_eq_some_iff.1 h
    obtain ⟨entry, hentry, -⟩ := Option.map_eq_some_iff.1 hfile
    have hplace : entry.1 = place := by simpa using List.find?_some hentry
    exact .inr (List.mem_append_right _
      (List.mem_map.2 ⟨entry, List.mem_of_find?_eq_some hentry, hplace⟩))

namespace IsFileSystem

variable (h : t.IsFileSystem) {place : List String} {kind : FileKind}
include h

theorem names_of_kindAt? (hkind : t.kindAt? place = some kind) :
    ∀ name ∈ place, IsEntryName name := by
  rcases mem_of_kindAt? hkind with rfl | hmem
  · exact List.forall_mem_nil _
  · rcases List.mem_append.1 hmem with hmem | hmem
    · exact h.directoryNames place hmem
    · obtain ⟨entry, hentry, rfl⟩ := List.mem_map.1 hmem
      exact h.names entry hentry

theorem kindAt?_dropLast (hkind : t.kindAt? place = some kind) :
    t.kindAt? place.dropLast = some .directory := by
  rcases mem_of_kindAt? hkind with rfl | hmem
  · exact kindAt?_nil t
  · exact h.parents place hmem

/-- What there is stands below directories all the way up. -/
theorem kindAt?_above {names : List String} (hkind : t.kindAt? (place ++ names) = some kind)
    (hne : names ≠ []) : t.kindAt? place = some .directory := by
  induction names using List.reverseRecOn generalizing kind with
  | nil => exact absurd rfl hne
  | append_singleton names name ih =>
    have hup := h.kindAt?_dropLast hkind
    rw [← List.append_assoc, List.dropLast_concat] at hup
    by_cases hnames : names = []
    · rwa [hnames, List.append_nil] at hup
    · exact ih hup hnames

/-- The names on the way to something lead there. -/
theorem reach_names {names : List String} (hkind : t.kindAt? (place ++ names) = some kind) :
    t.reach place (names.map String.toList) = some (place ++ names) := by
  induction names generalizing place with
  | nil =>
    rw [List.append_nil]
    rfl
  | cons name names ih =>
    have hname := h.names_of_kindAt? hkind name (by simp)
    have hplace := h.kindAt?_above hkind (List.cons_ne_nil _ _)
    rw [List.append_cons] at hkind ⊢
    have hnext : (t.kindAt? (place ++ [name])).isSome = true := by
      by_cases hnames : names = []
      · rw [hnames, List.append_nil] at hkind
        rw [hkind]
        rfl
      · rw [h.kindAt?_above hkind hnames]
        rfl
    have hup : name.toList ≠ ['.', '.'] := fun heq => hname.2.2.1 (String.toList_inj.1 heq)
    have henter : t.enter place name.toList = some (place ++ [name]) := by
      refine enter_eq_some_iff.2 ⟨hplace, .inr (.inr ⟨hname.segment.1, hup, ?_, hnext⟩)⟩
      rw [String.ofList_toList]
    rw [List.map_cons, reach_cons, henter]
    exact ih hkind

/-- **The canonical path of a place leads there.** -/
theorem locate_pathOf (hkind : t.kindAt? place = some kind) :
    t.locate (pathOf place) = .ok (.taken place kind) := by
  have htext : (pathOf place).text.toList = '/' :: (Text.joinWith "/" place).toList := by
    simp [pathOf]
  have hempty : (pathOf place).text.isEmpty = false := by
    simp [pathOf]
  unfold locate
  rw [hempty, if_neg Bool.false_ne_true, isAbsolute_pathOf, if_pos rfl, htext, Path.segments_slash]
  refine follow_eq_taken_iff.2 ⟨?_, hkind⟩
  rw [reach_cons, enter_idle (kindAt?_nil t) rfl, Option.bind_some]
  by_cases hnil : place = []
  · rw [hnil]
    exact (reach_cons _ _ _).trans (by rw [enter_idle (kindAt?_nil t) rfl]; rfl)
  · rw [Path.segments_joinWith hnil fun name hname => (h.names_of_kindAt? hkind name hname).2.2.2]
    exact h.reach_names (hkind : t.kindAt? ([] ++ place) = some kind)

theorem kindAt?_startOf (path : Path) : t.kindAt? (t.startOf path) = some .directory := by
  unfold startOf
  split
  · exact kindAt?_nil t
  · exact h.currentKind

/-- **A way to a file** ends in a step into the directory of the file. -/
theorem exists_last_step {path : Path} (hreach : t.reach (t.startOf path) path.trail = some place)
    (hkind : t.kindAt? place = some .file) :
    ∃ steps last directory, path.trail = steps ++ [last] ∧ last ≠ ['.', '.']
      ∧ t.reach (t.startOf path) steps = some directory
      ∧ t.kindAt? directory = some .directory ∧ place = directory ++ [String.ofList last] := by
  have hne : path.trail ≠ [] := by
    intro hnil
    rw [hnil] at hreach
    cases hreach
    rw [h.kindAt?_startOf] at hkind
    cases hkind
  obtain ⟨steps, last, htrail⟩ := (List.eq_nil_or_concat' path.trail).resolve_left hne
  rw [htrail, reach_append] at hreach
  obtain ⟨directory, hsteps, hlast⟩ := Option.bind_eq_some_iff.1 hreach
  rw [reach_cons] at hlast
  obtain ⟨next, henter, hnil⟩ := Option.bind_eq_some_iff.1 hlast
  cases hnil
  have hstep : IsStep last := Path.isStep_of_mem_trail (p := path) (by rw [htrail]; simp)
  obtain ⟨hdirectory, ⟨hidle, -⟩ | ⟨-, rfl⟩ | ⟨-, hup, rfl, -⟩⟩ := enter_eq_some_iff.1 henter
  · cases hstep.2.symm.trans hidle
  · -- a step up leads to a directory
    cases hkind.symm.trans (h.kindAt?_dropLast hdirectory)
  · exact ⟨steps, last, directory, htrail, hup, hsteps, hdirectory, rfl⟩

end IsFileSystem

/-! ## Writing a script -/

/-- A tree with a file of a text at a place. -/
structure HasText (t : FileTree) (place : List String) (text : String) : Prop where
  /-- There is a file. -/
  kindAt : t.kindAt? place = some .file
  /-- It has the text. -/
  contents : ∃ executable, t.fileAt? place = some ⟨text.toUTF8, executable⟩

theorem HasText.readText_eq {path : Path} {place : List String} {text : String}
    (h : t.HasText place text) (hlocate : t.locate path = .ok (.taken place .file)) :
    t.readText path = .ok text := by
  obtain ⟨executable, hfile⟩ := h.contents
  have hutf8 : String.fromUTF8? text.toUTF8 = some text := dif_pos text.isValidUTF8
  unfold readText
  rw [hlocate]
  dsimp only [bind, Except.bind]
  rw [hfile, Option.bind_some, hutf8]

/-- Making a file executable keeps its text. -/
theorem HasText.markExecutable_eq {path : Path} {place : List String} {text : String}
    (h : t.HasText place text) (hlocate : t.locate path = .ok (.taken place .file)) :
    t.markExecutable path = t.put place ⟨text.toUTF8, true⟩ := by
  obtain ⟨executable, hfile⟩ := h.contents
  unfold markExecutable
  rw [hlocate]
  dsimp only
  rw [hfile]

/-- **A tree that has grown by files only**, written at some places and left
alone at all others. -/
structure WrittenAt (t t' : FileTree) (places : List (List String)) : Prop where
  /-- The tree has only grown. -/
  within : t.Within t'
  /-- There are no other directories. -/
  directories : t'.directories = t.directories
  /-- Elsewhere files are what they were. -/
  fileAt : ∀ place ∉ places, t'.fileAt? place = t.fileAt? place

namespace WrittenAt

variable {places places' : List (List String)} {place found : List String}

theorem refl (t : FileTree) : t.WrittenAt t [] := ⟨.refl t, rfl, fun _ _ => rfl⟩

theorem trans {t'' : FileTree} (h : t.WrittenAt t' places) (h' : t'.WrittenAt t'' places') :
    t.WrittenAt t'' (places ++ places') := by
  refine ⟨h.within.trans h'.within, h'.directories.trans h.directories, fun place hplace => ?_⟩
  rw [List.mem_append, not_or] at hplace
  exact (h'.fileAt place hplace.2).trans (h.fileAt place hplace.1)

theorem kindAt?_eq (h : t.WrittenAt t' places) (hplace : place ∉ places) :
    t'.kindAt? place = t.kindAt? place := by
  unfold kindAt?
  rw [h.directories, h.fileAt place hplace]

theorem directory (h : t.WrittenAt t' places) (hkind : t'.kindAt? place = some .directory) :
    t.kindAt? place = some .directory := by
  unfold kindAt? at hkind ⊢
  rw [h.directories] at hkind
  split at hkind
  · next hdirectory => rw [if_pos hdirectory]
  · cases Option.map_eq_some_iff.1 hkind with
    | intro file hfile => cases hfile.2

theorem hasText (h : t.WrittenAt t' places) (hplace : place ∉ places) {text : String}
    (htext : t.HasText place text) : t'.HasText place text := by
  refine ⟨h.within.kindAt place _ htext.kindAt, ?_⟩
  rw [h.fileAt place hplace]
  exact htext.contents

/-- The ways to what there was are the same as before. -/
theorem reach_eq (h : t.WrittenAt t' places) {segments : List (List Char)}
    (hreach : t'.reach place segments = some found) (hfound : (t.kindAt? found).isSome = true) :
    t.reach place segments = some found := by
  induction segments generalizing place with
  | nil => exact hreach
  | cons segment segments ih =>
    rw [reach_cons] at hreach ⊢
    obtain ⟨next, henter, hrest⟩ := Option.bind_eq_some_iff.1 hreach
    have hsome : (t.kindAt? next).isSome = true := by
      cases segments with
      | nil =>
        cases hrest
        exact hfound
      | cons segment' segments =>
        rw [reach_cons] at hrest
        obtain ⟨_, henter', -⟩ := Option.bind_eq_some_iff.1 hrest
        rw [h.directory (directory_of_enter henter')]
        rfl
    obtain ⟨hplace, hnext⟩ := enter_eq_some_iff.1 henter
    have henter' : t.enter place segment = some next :=
      enter_eq_some_iff.2 ⟨h.directory hplace, hnext.imp_right (Or.imp_right
        fun hdown => ⟨hdown.1, hdown.2.1, hdown.2.2.1, hsome⟩)⟩
    rw [henter']
    exact ih hrest

theorem locate_eq (h : t.WrittenAt t' places) {path : Path} {kind : FileKind}
    (hlocate : t'.locate path = .ok (.taken place kind)) (hkind : t.kindAt? place = some kind) :
    t.locate path = .ok (.taken place kind) := by
  unfold locate at hlocate ⊢
  rw [h.within.current] at hlocate
  split at hlocate
  · cases hlocate
  · next hempty =>
    rw [if_neg hempty]
    refine follow_eq_taken_iff.2 ⟨h.reach_eq (follow_eq_taken_iff.1 hlocate).1 ?_, hkind⟩
    rw [hkind]
    rfl

end WrittenAt

theorem readText_congr {path path' : Path} {place : List String}
    (h : t.locate path = .ok (.taken place .file)) (h' : t'.locate path' = .ok (.taken place .file))
    (hfile : t'.fileAt? place = t.fileAt? place) : t'.readText path' = t.readText path := by
  unfold readText
  rw [h, h']
  dsimp only [bind, Except.bind]
  rw [hfile]

section Put

variable (place : List String) (file file' : File)

theorem put_put : (t.put place file).put place file' = t.put place file' := by
  simp [put, List.filter_filter]

theorem writtenAt_put : t.WrittenAt (t.put place file) [place] := by
  refine ⟨within_put t place file, rfl, fun place' hne => ?_⟩
  rw [fileAt?_put, if_neg (List.mem_singleton.not.1 hne)]

end Put

theorem hasText_put {place : List String} (h : t.kindAt? place ≠ some .directory) (text : String)
    (executable : Bool) : (t.put place ⟨text.toUTF8, executable⟩).HasText place text := by
  have hfile := fileAt?_put (t := t) place place ⟨text.toUTF8, executable⟩
  rw [if_pos rfl] at hfile
  refine ⟨?_, executable, hfile⟩
  unfold kindAt? at h ⊢
  rw [hfile]
  split at h
  · exact absurd rfl h
  · next hdirectory =>
    rw [show (t.put place _).directories = t.directories from rfl, if_neg hdirectory]
    rfl

theorem follow_last {directory : List String} (hdirectory : t.kindAt? directory = some .directory)
    {last : List Char} (hstep : IsStep last) (hup : last ≠ ['.', '.']) :
    t.follow directory [last]
      = match t.kindAt? (directory ++ [String.ofList last]) with
        | some kind => .ok (.taken (directory ++ [String.ofList last]) kind)
        | none => .ok (.free directory (String.ofList last)) := by
  rw [follow.eq_2, if_neg (not_not_intro hdirectory),
    if_neg (by rw [hstep.2]; exact Bool.false_ne_true), if_neg hup]
  dsimp only
  cases hkind : t.kindAt? (directory ++ [String.ofList last]) with
  | none => rfl
  | some kind =>
    show t.follow (directory ++ [String.ofList last]) [] = _
    rw [follow, hkind]

/-- **What a path to an entry of a directory stands for**, in every tree that
has grown from a given one. -/
structure LeadsInto (t : FileTree) (path : Path) (directory : List String) (last : List Char) :
    Prop where
  /-- The path takes a last step. -/
  trail : ∃ steps, path.trail = steps ++ [last] ∧ t.reach (t.startOf path) steps = some directory
  /-- Nothing stands behind it. -/
  ends : path.endsInStep = true
  /-- It is a step down. -/
  down : last ≠ ['.', '.']
  /-- The steps before lead to a directory. -/
  kindAt : t.kindAt? directory = some .directory

namespace LeadsInto

variable {path : Path} {directory : List String} {last : List Char}

theorem isStep (h : t.LeadsInto path directory last) : IsStep last := by
  obtain ⟨steps, htrail, -⟩ := h.trail
  exact Path.isStep_of_mem_trail (p := path) (by rw [htrail]; simp)

theorem mono (h : t.LeadsInto path directory last) (hwithin : t.Within t') :
    t'.LeadsInto path directory last := by
  obtain ⟨steps, htrail, hreach⟩ := h.trail
  refine ⟨⟨steps, htrail, ?_⟩, h.ends, h.down, hwithin.kindAt _ _ h.kindAt⟩
  unfold startOf at hreach ⊢
  rw [hwithin.current]
  exact hwithin.reach_eq hreach

theorem locate_eq (h : t.LeadsInto path directory last) :
    t.locate path = match t.kindAt? (directory ++ [String.ofList last]) with
      | some kind => .ok (.taken (directory ++ [String.ofList last]) kind)
      | none => .ok (.free directory (String.ofList last)) := by
  obtain ⟨steps, htrail, hreach⟩ := h.trail
  rw [locate_eq_follow htrail h.ends hreach h.kindAt, follow_last h.kindAt h.isStep h.down]

/-- The path above leads to the directory. -/
theorem exists_parent (h : t.LeadsInto path directory last) :
    ∃ above, path.parent = some above
      ∧ (above.text.isEmpty = false → t.locate above = .ok (.taken directory .directory)) := by
  obtain ⟨steps, htrail, hreach⟩ := h.trail
  obtain ⟨above, hparent, rfl, habsolute⟩ := Path.exists_parent htrail
  refine ⟨above, hparent, locate_of_reach_trail ?_ h.kindAt⟩
  unfold startOf at hreach ⊢
  rwa [habsolute]

/-- Writing to a path puts a file where it leads. -/
theorem writeText_eq (h : t.LeadsInto path directory last) {text : String}
    (hwrite : t.writeText path text = .ok t') :
    t.kindAt? (directory ++ [String.ofList last]) ≠ some .directory
      ∧ ∃ executable, t' = t.put (directory ++ [String.ofList last]) ⟨text.toUTF8, executable⟩ := by
  unfold writeText at hwrite
  rw [if_neg (Path.text_of_endsInStep h.ends).2, h.locate_eq] at hwrite
  cases hkind : t.kindAt? (directory ++ [String.ofList last]) with
  | none =>
    rw [hkind] at hwrite
    cases hwrite
    exact ⟨nofun, _, rfl⟩
  | some kind =>
    rw [hkind] at hwrite
    cases kind with
    | directory => cases hwrite
    | file =>
      cases hwrite
      exact ⟨nofun, _, rfl⟩

/-- Making a path executable changes no text. -/
theorem markExecutable_eq (h : t.LeadsInto path directory last) {text : String}
    (htext : t.HasText (directory ++ [String.ofList last]) text) :
    t.markExecutable path = t.put (directory ++ [String.ofList last]) ⟨text.toUTF8, true⟩ := by
  refine htext.markExecutable_eq ?_
  rw [h.locate_eq, htext.kindAt]

end LeadsInto

/-- A directory that exists is not made. -/
theorem run_makeDirectories {path : Path} {place : List String}
    (h : t.locate path = .ok (.taken place .directory)) :
    StateT.run (FileStore.makeDirectories (m := StateM FileTree) path) t = (.ok (), t) := by
  have hmake : StateT.run (FileStore.makeDirectory (m := StateM FileTree) path) t
      = (.error .alreadyExists, t) := by
    have hrefused : t.makeDirectory path = .error .alreadyExists := by
      unfold makeDirectory
      rw [h]
      rfl
    show StateT.run (FileStore.update (·.makeDirectory path)) t = _
    rw [run_update, hrefused]
  have hlook : StateT.run (FileStore.isDirectory (m := StateM FileTree) path) t = (true, t) := by
    show (decide (t.kind? path = some .directory), t) = _
    unfold kind?
    rw [h]
    rfl
  have hensure : StateT.run (FileStore.ensureDirectory (m := StateM FileTree) path) t
      = (.ok (), t) := by
    unfold FileStore.ensureDirectory
    rw [StateT.run_bind, hmake]
    show StateT.run (FileStore.isDirectory path >>= _) t = _
    rw [StateT.run_bind, hlook]
    rfl
  unfold FileStore.makeDirectories FileStore.makeDirectoriesUpTo
  split
  · rfl
  · rw [StateT.run_bind, hensure]
    rfl

/-- **Writing a script** puts its text where the path leads, and changes
nothing else. -/
theorem LeadsInto.yields_writeScript {path : Path} {directory : List String} {last : List Char}
    (h : t.LeadsInto path directory last) {text : String} {executable : Bool}
    (hwrite : Yields (writeScript path text executable) t () t') :
    t.kindAt? (directory ++ [String.ofList last]) ≠ some .directory
      ∧ ∃ executable',
        t' = t.put (directory ++ [String.ofList last]) ⟨text.toUTF8, executable'⟩ := by
  have hrest : Yields (putScript path text executable) t () t' := by
    obtain heq | ⟨above, hparent, hempty, heq⟩ :=
      writeScript_cases (S := FileTree) path text executable
    · rwa [heq] at hwrite
    · rw [heq] at hwrite
      obtain ⟨above', hparent', hlocate⟩ := h.exists_parent
      cases hparent.symm.trans hparent'
      obtain ⟨_, t₁, hmake, hrest⟩ := yields_bind_iff.1 hwrite
      obtain ⟨-, rfl⟩ := Prod.mk.inj ((run_makeDirectories (hlocate hempty)).symm.trans
        (yields_orFail_run_iff.1 hmake))
      exact hrest
  obtain ⟨_, t₁, hput, hmark⟩ := yields_bind_iff.1 hrest
  obtain ⟨hkind, executable', rfl⟩ :=
    h.writeText_eq (eq_ok_of_run_update (yields_orFail_run_iff.1 hput))
  refine ⟨hkind, ?_⟩
  cases executable with
  | false =>
    obtain ⟨-, rfl⟩ := yields_pure_iff.1 hmark
    exact ⟨executable', rfl⟩
  | true =>
    have hmarked := (Prod.mk.inj (yields_lift_run_iff.1 hmark)).2.symm.trans
      ((h.mono (within_put t _ _)).markExecutable_eq (hasText_put hkind text executable'))
    rw [put_put] at hmarked
    exact ⟨true, hmarked⟩

/-- **A path that leads to a place**, be it taken or free. -/
def LeadsTo (t : FileTree) (path : Path) (place : List String) : Prop :=
  ∃ directory last, t.LeadsInto path directory last ∧ place = directory ++ [String.ofList last]

namespace LeadsTo

variable {path : Path} {place : List String} {text : String}

theorem mono (h : t.LeadsTo path place) (hwithin : t.Within t') : t'.LeadsTo path place := by
  obtain ⟨directory, last, hleads, hplace⟩ := h
  exact ⟨directory, last, hleads.mono hwithin, hplace⟩

/-- What the last step of a path is called can be called so. -/
theorem names (h : t.LeadsTo path place) (ht : t.IsFileSystem) :
    ∀ name ∈ place, IsEntryName name := by
  obtain ⟨directory, last, hleads, rfl⟩ := h
  refine List.forall_mem_append.2
    ⟨ht.names_of_kindAt? hleads.kindAt, List.forall_mem_singleton.2 ?_⟩
  obtain ⟨hslash, hidle⟩ := hleads.isStep
  have hlast : ∀ name : String, String.ofList last = name → last = name.toList :=
    fun name hname => by rw [← hname, String.toList_ofList]
  refine ⟨fun hname => ?_, fun hname => ?_, fun hname => hleads.down (hlast _ hname), ?_⟩
  · rw [hlast _ hname] at hidle
    cases hidle
  · rw [hlast _ hname] at hidle
    cases hidle
  · rwa [String.toList_ofList]

theorem locate_eq (h : t.LeadsTo path place) (htext : t.HasText place text) :
    t.locate path = .ok (.taken place .file) := by
  obtain ⟨directory, last, hleads, rfl⟩ := h
  rw [hleads.locate_eq, htext.kindAt]

theorem yields_writeScript (h : t.LeadsTo path place) {executable : Bool}
    (hwrite : Yields (writeScript path text executable) t () t') :
    t.WrittenAt t' [place] ∧ t'.HasText place text := by
  obtain ⟨directory, last, hleads, rfl⟩ := h
  obtain ⟨hkind, executable', rfl⟩ := hleads.yields_writeScript hwrite
  exact ⟨writtenAt_put _ _, hasText_put hkind text executable'⟩

end LeadsTo

end FileTree

end ScriptToShell
