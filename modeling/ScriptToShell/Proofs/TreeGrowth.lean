import ScriptToShell.Proofs.StoreRuns
import ScriptToShell.Store.Tree

/-!
# Trees only grow

A build writes into the tree it reads from, and the two may overlap. What
keeps this harmless is that a tree only **grows**: files are added or get
another text and directories are added, but nothing is removed, and no
file becomes a directory or the other way round. So a path that leads
somewhere before a build leads there during all of it
(`FileTree.Within.canonical_eq`).

So a build leads from a tree to one that has grown from it
(`FileTree.adds_writeScript`).

The last section is about the paths of files. In a tree whose files have
proper names, the canonical path of a file takes the steps of its place.
-/

namespace ScriptToShell

namespace FileTree

/-! ## Growing trees -/

/-- **A tree that another one has grown from**: whatever is in it is still
there, and is of the same kind. -/
structure Within (t t' : FileTree) : Prop where
  /-- What is at a place stays there. -/
  kindAt : ∀ place kind, t.kindAt? place = some kind → t'.kindAt? place = some kind
  /-- Relative paths start where they did. -/
  current : t'.current = t.current

namespace Within

variable {t t' t'' : FileTree}

theorem refl (t : FileTree) : t.Within t := ⟨fun _ _ h => h, rfl⟩

theorem trans (h : t.Within t') (h' : t'.Within t'') : t.Within t'' :=
  ⟨fun place kind hkind => h'.kindAt place kind (h.kindAt place kind hkind),
    h'.current.trans h.current⟩

/-- A way through a tree is a way through any tree that grows from it. -/
theorem follow_eq (h : t.Within t') {place : List String} {segments : List (List Char)}
    {found : List String} {kind : FileKind}
    (hfollow : t.follow place segments = .ok (.taken found kind)) :
    t'.follow place segments = .ok (.taken found kind) := by
  induction segments generalizing place with
  | nil =>
    unfold follow at hfollow ⊢
    cases hkind : t.kindAt? place with
    | none =>
      rw [hkind] at hfollow
      cases hfollow
    | some k =>
      rw [hkind] at hfollow
      rw [h.kindAt place k hkind]
      exact hfollow
  | cons segment rest ih =>
    unfold follow at hfollow ⊢
    by_cases hplace : t.kindAt? place = some .directory
    · have hplace' := h.kindAt place _ hplace
      rw [if_neg (not_not_intro hplace)] at hfollow
      rw [if_neg (not_not_intro hplace')]
      split
      · rename_i hidle
        rw [if_pos hidle] at hfollow
        exact ih hfollow
      · rename_i hidle
        rw [if_neg hidle] at hfollow
        split
        · rename_i hup
          rw [if_pos hup] at hfollow
          exact ih hfollow
        · rename_i hup
          rw [if_neg hup] at hfollow
          dsimp only at hfollow ⊢
          cases hnext : t.kindAt? (place ++ [String.ofList segment]) with
          | none =>
            -- a free name is not what the way has led to
            rw [hnext] at hfollow
            simp only [Option.isSome_none, Bool.false_eq_true, if_false] at hfollow
            split at hfollow <;> cases hfollow
          | some k =>
            rw [hnext] at hfollow
            rw [h.kindAt _ k hnext]
            exact ih hfollow
    · rw [if_pos hplace] at hfollow
      cases hfollow

theorem locate_eq (h : t.Within t') {path : Path} {found : List String} {kind : FileKind}
    (hlocate : t.locate path = .ok (.taken found kind)) :
    t'.locate path = .ok (.taken found kind) := by
  unfold locate at hlocate ⊢
  split
  · rename_i hempty
    rw [if_pos hempty] at hlocate
    cases hlocate
  · rename_i hempty
    rw [if_neg hempty] at hlocate
    rw [h.current]
    exact h.follow_eq hlocate

/-- **A path that leads somewhere keeps leading there.** -/
theorem canonical_eq (h : t.Within t') {path place : Path} (hplace : t.canonical path = .ok place) :
    t'.canonical path = .ok place := by
  unfold canonical at hplace ⊢
  cases hlocate : t.locate path with
  | error refusal =>
    rw [hlocate] at hplace
    cases hplace
  | ok spot =>
    rw [hlocate] at hplace
    cases spot with
    | free directory name => cases hplace
    | taken found kind =>
      rw [h.locate_eq hlocate]
      exact hplace

end Within

/-! ## What lets a tree grow -/

variable {t t' : FileTree}

/-- Nothing is at a place that is free. -/
theorem kindAt?_of_follow {place : List String} {segments : List (List Char)}
    {directory : List String} {name : String}
    (h : t.follow place segments = .ok (.free directory name)) :
    t.kindAt? (directory ++ [name]) = none := by
  induction segments generalizing place with
  | nil =>
    unfold follow at h
    split at h <;> cases h
  | cons segment rest ih =>
    unfold follow at h
    split at h
    · cases h
    · split at h
      · exact ih h
      · split at h
        · exact ih h
        · dsimp only at h
          split at h
          · exact ih h
          · rename_i hnone
            split at h
            · cases h
              simpa using hnone
            · cases h

theorem kindAt?_of_locate {path : Path} {directory : List String} {name : String}
    (h : t.locate path = .ok (.free directory name)) : t.kindAt? (directory ++ [name]) = none := by
  unfold locate at h
  split at h
  · cases h
  · exact kindAt?_of_follow h

/-- A directory is created where nothing is. -/
theorem within_makeDirectory {path : Path} (h : t.makeDirectory path = .ok t') : t.Within t' := by
  unfold makeDirectory at h
  cases hlocate : t.locate path with
  | error refusal =>
    rw [hlocate] at h
    cases h
  | ok spot =>
    rw [hlocate] at h
    cases spot with
    | taken found kind => cases h
    | free directory name =>
      cases h
      have hfree := kindAt?_of_locate hlocate
      refine ⟨fun place kind hkind => ?_, rfl⟩
      have hne : place ≠ directory ++ [name] := by
        rintro rfl
        rw [hfree] at hkind
        cases hkind
      unfold kindAt? at hkind ⊢
      rw [List.contains_cons, beq_false_of_ne hne, Bool.false_or]
      exact hkind

theorem fileAt?_put (place place' : List String) (file : File) :
    (t.put place file).fileAt? place' = if place' = place then some file else t.fileAt? place' := by
  unfold fileAt? put
  by_cases h : place' = place
  · rw [if_pos h, List.find?_cons_of_pos (by simp [h])]
    rfl
  · rw [if_neg h, List.find?_cons_of_neg (by simpa using Ne.symm h), List.find?_filter]
    congr 2
    funext entry
    by_cases hentry : entry.1 = place'
    · simp [hentry, h]
    · simp [hentry]

/-- A file that is put where a file is, or where nothing is, changes no
kind. -/
theorem within_put (t : FileTree) (place : List String) (file : File) :
    t.Within (t.put place file) := by
  refine ⟨fun place' kind hkind => ?_, rfl⟩
  unfold kindAt? at hkind ⊢
  rw [fileAt?_put]
  by_cases hdirectory : (place' = [] || t.directories.contains place') = true
  · rw [if_pos hdirectory] at hkind
    rw [show (t.put place file).directories = t.directories from rfl, if_pos hdirectory]
    exact hkind
  · rw [if_neg hdirectory] at hkind
    rw [show (t.put place file).directories = t.directories from rfl, if_neg hdirectory]
    split
    · obtain ⟨-, -, rfl⟩ := Option.map_eq_some_iff.1 hkind
      rfl
    · exact hkind

theorem within_writeText {path : Path} {text : String} (h : t.writeText path text = .ok t') :
    t.Within t' := by
  unfold writeText at h
  split at h
  · cases hlocate : t.locate (withoutSlashes path) with
    | error refusal =>
      rw [hlocate] at h
      cases h
    | ok spot =>
      rw [hlocate] at h
      cases h
  · cases hlocate : t.locate path with
    | error refusal =>
      rw [hlocate] at h
      cases h
    | ok spot =>
      rw [hlocate] at h
      cases spot with
      | free directory name =>
        cases h
        exact within_put t _ _
      | taken found kind =>
        cases kind with
        | directory => cases h
        | file =>
          cases h
          exact within_put t _ _

theorem within_markExecutable (t : FileTree) (path : Path) : t.Within (t.markExecutable path) := by
  unfold markExecutable
  split
  · split
    · exact within_put t _ _
    · exact .refl t
  · exact .refl t

/-! ## Actions that let a tree grow -/

instance : IsPreorder FileTree Within where
  refl := .refl
  trans _ _ _ := .trans

/-- **An action that lets the tree grow**, whatever comes of it. -/
def Adds {α : Type} (x : StateM FileTree α) : Prop := ∀ t : FileTree, t.Within (StateT.run x t).2

instance : FileStore.Steady FileTree where
  kind? _ _ := rfl
  readText _ _ := rfl
  canonical _ _ := rfl
  filesUnder _ _ := rfl

/-- **Writing a script lets the tree grow.** -/
theorem adds_writeScript (path : Path) (text : String) (executable : Bool) :
    Adds (writeScript (m := StateM FileTree) path text executable).run :=
  moves_writeScript (R := Within) (fun _ => moves_update fun _ _ => within_makeDirectory)
    (fun _ _ => moves_update fun _ _ => within_writeText)
    (fun path t => within_markExecutable t path) path text executable

end FileTree

/-! ## The paths of files -/

namespace Path

theorem segments_of_not_mem {cs : List Char} (h : '/' ∉ cs) : segments cs = [cs] := by
  induction cs with
  | nil => rfl
  | cons c cs ih =>
    rw [List.mem_cons, not_or] at h
    unfold segments
    rw [if_neg (Ne.symm h.1), ih h.2]

theorem segments_ne_nil (cs : List Char) : segments cs ≠ [] := by
  cases cs with
  | nil => exact List.cons_ne_nil _ _
  | cons c cs =>
    unfold segments
    split
    · exact List.cons_ne_nil _ _
    · split <;> exact List.cons_ne_nil _ _

theorem segments_cons {c : Char} (hc : c ≠ '/') (cs : List Char) :
    ∃ s ss, segments cs = s :: ss ∧ segments (c :: cs) = (c :: s) :: ss := by
  obtain ⟨s, ss, hss⟩ := List.exists_cons_of_ne_nil (segments_ne_nil cs)
  refine ⟨s, ss, hss, ?_⟩
  rw [segments, if_neg hc, hss]

theorem segments_slash (cs : List Char) : segments ('/' :: cs) = [] :: segments cs := rfl

theorem segments_append (cs ds : List Char) :
    segments (cs ++ '/' :: ds) = segments cs ++ segments ds := by
  induction cs with
  | nil => rfl
  | cons c cs ih =>
    by_cases hc : c = '/'
    · subst hc
      rw [List.cons_append, segments_slash, segments_slash, ih, List.cons_append]
    · obtain ⟨s, ss, hss, hcons⟩ := segments_cons hc cs
      obtain ⟨s', ss', hss', hcons'⟩ := segments_cons hc (cs ++ '/' :: ds)
      rw [ih, hss, List.cons_append] at hss'
      obtain ⟨rfl, rfl⟩ := List.cons.inj hss'
      rw [List.cons_append, hcons', hcons, List.cons_append]

theorem segments_joinWith {names : List String} (hne : names ≠ [])
    (h : ∀ name ∈ names, '/' ∉ name.toList) :
    segments (Text.joinWith "/" names).toList = names.map String.toList := by
  induction names with
  | nil => exact absurd rfl hne
  | cons name names ih =>
    rw [List.forall_mem_cons] at h
    cases names with
    | nil => exact segments_of_not_mem h.1
    | cons next rest =>
      have hslash : (Text.joinWith "/" (name :: next :: rest)).toList
          = name.toList ++ '/' :: (Text.joinWith "/" (next :: rest)).toList := by
        simp [Text.joinWith]
      rw [hslash, segments_append, segments_of_not_mem h.1, ih (List.cons_ne_nil next rest) h.2]
      rfl

end Path

namespace FileTree

/-- **A name that an entry of a directory can have.** -/
def IsEntryName (name : String) : Prop :=
  name ≠ "" ∧ name ≠ "." ∧ name ≠ ".." ∧ '/' ∉ name.toList

instance (name : String) : Decidable (IsEntryName name) :=
  inferInstanceAs (Decidable (_ ∧ _ ∧ _ ∧ _))

/-- **A well-formed tree**: the names on the way to a file are names that
entries can have, and no place has two files. -/
structure WellFormed (t : FileTree) : Prop where
  /-- The names on the way to a file are proper. -/
  names : ∀ entry ∈ t.files, ∀ name ∈ entry.1, IsEntryName name
  /-- Places have one file each. -/
  distinct : (t.files.map (·.1)).Nodup

instance (t : FileTree) : Decidable t.WellFormed :=
  decidable_of_iff ((∀ entry ∈ t.files, ∀ name ∈ entry.1, IsEntryName name)
    ∧ (t.files.map (·.1)).Nodup) ⟨fun h => ⟨h.1, h.2⟩, fun h => ⟨h.names, h.distinct⟩⟩

/-- A proper name is a step of its own. -/
theorem IsEntryName.segment {name : String} (h : IsEntryName name) :
    Path.isIdle name.toList = false ∧ Path.segmentComponent name.toList = .normal name := by
  obtain ⟨hempty, hpoint, hpoints, -⟩ := h
  have hne : ∀ text : String, name ≠ text → name.toList ≠ text.toList :=
    fun text hne heq => hne (String.toList_inj.1 heq)
  have hparent : name.toList ≠ ['.', '.'] := hne ".." hpoints
  refine ⟨?_, ?_⟩
  · simpa [Path.isIdle] using ⟨hempty, hne "." hpoint⟩
  · unfold Path.segmentComponent
    rw [if_neg hparent, String.ofList_toList]

/-- **The canonical path of a place takes its steps.** -/
theorem components_pathOf {place : List String} (h : ∀ name ∈ place, IsEntryName name) :
    (pathOf place).components = .root :: place.map .normal := by
  have hsteps : ((Path.segments (Text.joinWith "/" place).toList).filter
      (!Path.isIdle ·)).map Path.segmentComponent = place.map .normal := by
    by_cases hne : place = []
    · rw [hne]
      rfl
    · have hbusy : ∀ segment ∈ place.map String.toList, (!Path.isIdle segment) = true :=
        List.forall_mem_map.2 fun name hname => by rw [(h name hname).segment.1]; rfl
      rw [Path.segments_joinWith hne fun name hname => (h name hname).2.2.2,
        List.filter_eq_self.2 hbusy, List.map_map]
      exact List.map_congr_left fun name hname => (h name hname).segment.2
  have htext : (pathOf place).text.toList = '/' :: (Text.joinWith "/" place).toList := by
    simp [pathOf]
  unfold Path.components
  rw [htext]
  exact congrArg (Path.Component.root :: ·) hsteps

/-- The canonical paths of different places take different steps. -/
theorem nodup_components_pathOf {α : Type} {entries : List (List String × α)}
    (hnames : ∀ entry ∈ entries, ∀ name ∈ entry.1, IsEntryName name)
    (hdistinct : (entries.map (·.1)).Nodup) :
    ((entries.map fun entry => pathOf entry.1).map Path.components).Nodup := by
  have hsteps : (entries.map fun entry => pathOf entry.1).map Path.components
      = (entries.map (·.1)).map fun place => .root :: place.map .normal := by
    rw [List.map_map, List.map_map]
    exact List.map_congr_left fun entry hentry => components_pathOf (hnames entry hentry)
  rw [hsteps]
  refine List.Pairwise.map _ (fun a b hne heq => hne ?_) hdistinct
  exact List.map_inj_right (fun _ _ => Path.Component.normal.inj) |>.1 (List.cons.inj heq).2

/-- **In a well-formed tree, paths tell files apart.** -/
theorem WellFormed.nodup_components {t : FileTree} (h : t.WellFormed) (path : Path) :
    ((t.filesUnder path).map Path.components).Nodup := by
  unfold filesUnder
  split
  · exact nodup_components_pathOf (fun entry hentry => h.names entry (List.mem_filter.1 hentry).1)
      (h.distinct.sublist (List.filter_sublist.map _))
  · exact List.nodup_nil

end FileTree

end ScriptToShell
