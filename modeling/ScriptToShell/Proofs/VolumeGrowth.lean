import ScriptToShell.Proofs.TreeGrowth
import ScriptToShell.Store.Volume

/-!
# Volumes only grow

What a path leads to in a volume is described by the steps of the way
(`Volume.Leads`), and each question about where paths lead is an induction over
these steps. As a tree of files does, a volume only **grows**: names and files
are added and files get another text, but no name comes to stand for something
else. So a path that leads to a file before a change leads to the same file
after it (`Volume.Within.locate_eq`), over the same links.

A path to a free name may lead over links too. Once a file is written to it,
it leads to this file (`Volume.exists_of_writeText`).
-/

namespace ScriptToShell.Volume

variable {v v' v'' : Volume}

/-! ## The steps of a way -/

/-- A segment that is the name of a step down. -/
def IsStep (segment : List Char) : Prop :=
  Path.isIdle segment = false ∧ segment ≠ ['.', '.']

/-- **The way that a path leads**, step by step, with the number of links that
it may still lead over. -/
inductive Leads (v : Volume) (through : Bool) :
    Nat → List String → List (List Char) → Spot → Prop where
  | directory {limit : Nat} {place : List String} : v.entryAt? place = some .directory →
    v.Leads through limit place [] (.taken place .directory)
  | file {limit : Nat} {place : List String} {number : Nat} :
    v.entryAt? place = some (.file number) →
    v.Leads through limit place [] (.taken place .file)
  | stay {limit : Nat} {place : List String} {segment : List Char} {rest : List (List Char)}
    {spot : Spot} : v.entryAt? place = some .directory → Path.isIdle segment = true →
    v.Leads through limit place rest spot → v.Leads through limit place (segment :: rest) spot
  | up {limit : Nat} {place : List String} {rest : List (List Char)} {spot : Spot} :
    v.entryAt? place = some .directory → v.Leads through limit place.dropLast rest spot →
    v.Leads through limit place (['.', '.'] :: rest) spot
  | down {limit : Nat} {place : List String} {segment : List Char} {rest : List (List Char)}
    {entry : Entry} {spot : Spot} : v.entryAt? place = some .directory → IsStep segment →
    v.entryAt? (place ++ [String.ofList segment]) = some entry →
    (∀ target, entry ≠ .link target) →
    v.Leads through limit (place ++ [String.ofList segment]) rest spot →
    v.Leads through limit place (segment :: rest) spot
  /-- A link is followed to where it leads. -/
  | followed {limit : Nat} {place : List String} {segment : List Char} {rest : List (List Char)}
    {target : Path} {spot : Spot} : v.entryAt? place = some .directory → IsStep segment →
    v.entryAt? (place ++ [String.ofList segment]) = some (.link target) →
    (!through && rest.all (· = [])) = false →
    v.Leads through limit (if target.isAbsolute then [] else place)
      (Path.segments target.text.toList ++ rest) spot →
    v.Leads through (limit + 1) place (segment :: rest) spot
  /-- A link at the end is taken for itself. -/
  | link {limit : Nat} {place : List String} {segment : List Char} {rest : List (List Char)}
    {target : Path} : v.entryAt? place = some .directory → IsStep segment →
    v.entryAt? (place ++ [String.ofList segment]) = some (.link target) →
    (!through && rest.all (· = [])) = true →
    v.Leads through limit place (segment :: rest)
      (.taken (place ++ [String.ofList segment]) .file)
  | free {limit : Nat} {place : List String} {segment : List Char} {rest : List (List Char)} :
    v.entryAt? place = some .directory → IsStep segment →
    v.entryAt? (place ++ [String.ofList segment]) = none → rest.all (· = []) = true →
    v.Leads through limit place (segment :: rest)
      (.free place (String.ofList segment) !rest.isEmpty)

/-- How a way goes on behind a link. -/
def beyond (v : Volume) (through : Bool) :
    Nat → List String → List (List Char) → Except Refusal Spot
  | 0 => fun _ _ => .error .tooManyLinks
  | limit + 1 => v.follow through limit

theorem follow_eq_walk (v : Volume) (through : Bool) (limit : Nat) :
    v.follow through limit = v.walk through (v.beyond through limit) := by
  cases limit <;> rfl

variable {through : Bool} {limit : Nat} {place : List String} {segments : List (List Char)}
  {spot : Spot}

/-- What is followed from link to link takes the steps of a way, if it does
behind the first link. -/
theorem leads_of_walk (hbeyond : ∀ limit' place segments, limit = limit' + 1 →
      v.follow through limit' place segments = .ok spot →
      v.Leads through limit' place segments spot)
    (h : v.walk through (v.beyond through limit) place segments = .ok spot) :
    v.Leads through limit place segments spot := by
  induction segments generalizing place with
  | nil =>
    unfold walk at h
    split at h
    · cases h
      exact .directory ‹_›
    · cases h
      exact .file ‹_›
    · cases h
  | cons segment rest ih =>
    unfold walk at h
    split at h
    · cases h
    · rename_i hdirectory
      have hdirectory := Decidable.not_not.1 hdirectory
      split at h
      · exact .stay hdirectory ‹_› (ih h)
      · rename_i hidle
        split at h
        · subst segment
          exact .up hdirectory (ih h)
        · rename_i hup
          have hstep : IsStep segment := ⟨eq_false_of_ne_true hidle, hup⟩
          dsimp only at h
          split at h
          · rename_i target hentry
            split at h
            · cases h
              exact .link hdirectory hstep hentry ‹_›
            · rename_i hend
              cases limit with
              | zero => cases h
              | succ limit =>
                exact .followed hdirectory hstep hentry (eq_false_of_ne_true hend)
                  (hbeyond limit _ _ rfl h)
          · rename_i entry hnot hentry
            exact .down hdirectory hstep hentry hnot (ih h)
          · split at h
            · cases h
              exact .free hdirectory hstep ‹_› ‹_›
            · cases h

theorem Leads.follow_eq (h : v.Leads through limit place segments spot) :
    v.follow through limit place segments = .ok spot := by
  induction h with
  | directory hentry | file hentry =>
    rw [follow_eq_walk, walk, hentry]
  | stay hdirectory hidle _ ih =>
    rw [follow_eq_walk] at ih ⊢
    rw [walk, if_neg (Decidable.not_not.2 hdirectory), if_pos hidle, ih]
  | up hdirectory _ ih =>
    rw [follow_eq_walk] at ih ⊢
    rw [walk, if_neg (Decidable.not_not.2 hdirectory), if_neg (by decide), if_pos rfl, ih]
  | @down limit place segment rest entry spot hdirectory hstep hentry hlink _ ih =>
    rw [follow_eq_walk] at ih ⊢
    rw [walk, if_neg (Decidable.not_not.2 hdirectory), if_neg (ne_true_of_eq_false hstep.1),
      if_neg hstep.2]
    dsimp only
    rw [hentry]
    cases entry with
    | link target => exact absurd rfl (hlink target)
    | file number => exact ih
    | directory => exact ih
  | followed hdirectory hstep hentry hend _ ih =>
    rw [follow_eq_walk, walk, if_neg (Decidable.not_not.2 hdirectory),
      if_neg (ne_true_of_eq_false hstep.1), if_neg hstep.2]
    dsimp only
    rw [hentry]
    dsimp only
    rw [if_neg (ne_true_of_eq_false hend)]
    exact ih
  | link hdirectory hstep hentry hend =>
    rw [follow_eq_walk, walk, if_neg (Decidable.not_not.2 hdirectory),
      if_neg (ne_true_of_eq_false hstep.1), if_neg hstep.2]
    dsimp only
    rw [hentry]
    dsimp only
    rw [if_pos hend]
  | free hdirectory hstep hentry hrest =>
    rw [follow_eq_walk, walk, if_neg (Decidable.not_not.2 hdirectory),
      if_neg (ne_true_of_eq_false hstep.1), if_neg hstep.2]
    dsimp only
    rw [hentry]
    dsimp only
    rw [if_pos hrest]

/-- **Following a path takes the steps of its way.** -/
theorem follow_eq_ok_iff :
    v.follow through limit place segments = .ok spot
      ↔ v.Leads through limit place segments spot := by
  refine ⟨fun h => ?_, Leads.follow_eq⟩
  induction limit generalizing place segments with
  | zero =>
    rw [follow_eq_walk] at h
    exact leads_of_walk nofun h
  | succ limit ih =>
    rw [follow_eq_walk] at h
    refine leads_of_walk (fun limit' place segments hlimit h => ?_) h
    obtain rfl := Nat.succ.inj hlimit
    exact ih h

/-- A way to a free name leads to nothing. -/
theorem Leads.entryAt?_eq_none {directory : List String} {name : String} {slash : Bool}
    (h : v.Leads through limit place segments (.free directory name slash)) :
    v.entryAt? (directory ++ [name]) = none := by
  generalize hspot : Spot.free directory name slash = spot at h
  induction h with
  | directory | file | link => cases hspot
  | stay _ _ _ ih | up _ _ ih | down _ _ _ _ _ ih | followed _ _ _ _ _ ih => exact ih hspot
  | free _ _ hentry _ =>
    cases hspot
    exact hentry

/-! ## Growing volumes -/

/-- Every file that a name stands for is there. -/
def Numbered (v : Volume) : Prop :=
  ∀ place number, v.entryAt? place = some (.file number) → number < v.files.length

/-- **A volume that another one has grown from**: every name in it still stands
for the same. -/
structure Within (v v' : Volume) : Prop where
  /-- What a name stands for stays. -/
  entryAt : ∀ place entry, v.entryAt? place = some entry → v'.entryAt? place = some entry
  /-- Relative paths start where they did. -/
  current : v'.current = v.current
  /-- No name comes to stand for a file that is not there. -/
  numbered : v.Numbered → v'.Numbered

instance : IsPreorder Volume Within where
  refl _ := ⟨fun _ _ h => h, rfl, id⟩
  trans _ _ _ h h' :=
    ⟨fun place entry hentry => h'.entryAt place entry (h.entryAt place entry hentry),
      h'.current.trans h.current, h'.numbered ∘ h.numbered⟩

namespace Within

variable (h : v.Within v')
include h

/-- A way to something that exists is a way through any volume that grows from
it. -/
theorem leads {found : List String} {kind : FileKind}
    (hleads : v.Leads through limit place segments (.taken found kind)) :
    v'.Leads through limit place segments (.taken found kind) := by
  generalize hspot : Spot.taken found kind = spot at hleads
  induction hleads with
  | directory hentry => exact .directory (h.entryAt _ _ hentry)
  | file hentry => exact .file (h.entryAt _ _ hentry)
  | stay hdirectory hidle _ ih => exact .stay (h.entryAt _ _ hdirectory) hidle (ih hspot)
  | up hdirectory _ ih => exact .up (h.entryAt _ _ hdirectory) (ih hspot)
  | down hdirectory hstep hentry hlink _ ih =>
    exact .down (h.entryAt _ _ hdirectory) hstep (h.entryAt _ _ hentry) hlink (ih hspot)
  | followed hdirectory hstep hentry hend _ ih =>
    exact .followed (h.entryAt _ _ hdirectory) hstep (h.entryAt _ _ hentry) hend (ih hspot)
  | link hdirectory hstep hentry hend =>
    exact .link (h.entryAt _ _ hdirectory) hstep (h.entryAt _ _ hentry) hend
  | free => cases hspot

/-- A way to a free name, without a slash at its end, leads to the file that
gets the name. -/
theorem leads_of_free {directory : List String} {name : String} {number : Nat}
    (hfile : v'.entryAt? (directory ++ [name]) = some (.file number))
    (hleads : v.Leads through limit place segments (.free directory name false)) :
    v'.Leads through limit place segments (.taken (directory ++ [name]) .file) := by
  generalize hspot : Spot.free directory name false = spot at hleads
  induction hleads with
  | directory | file | link => cases hspot
  | stay hdirectory hidle _ ih => exact .stay (h.entryAt _ _ hdirectory) hidle (ih hspot)
  | up hdirectory _ ih => exact .up (h.entryAt _ _ hdirectory) (ih hspot)
  | down hdirectory hstep hentry hlink _ ih =>
    exact .down (h.entryAt _ _ hdirectory) hstep (h.entryAt _ _ hentry) hlink (ih hspot)
  | followed hdirectory hstep hentry hend _ ih =>
    exact .followed (h.entryAt _ _ hdirectory) hstep (h.entryAt _ _ hentry) hend (ih hspot)
  | @free limit place segment rest hdirectory hstep _ _ =>
    obtain ⟨rfl, rfl, hrest⟩ := Spot.free.inj hspot
    obtain rfl : rest = [] := List.isEmpty_iff.1 (by simpa using hrest.symm)
    exact .down (h.entryAt _ _ hdirectory) hstep hfile nofun (.file hfile)

theorem locate_eq {path : Path} {found : List String} {kind : FileKind}
    (hlocate : v.locate through path = .ok (.taken found kind)) :
    v'.locate through path = .ok (.taken found kind) := by
  unfold locate at hlocate ⊢
  split at hlocate
  · cases hlocate
  · rename_i hempty
    rw [if_neg hempty, h.current]
    exact follow_eq_ok_iff.2 (h.leads (follow_eq_ok_iff.1 hlocate))

theorem locate_of_free {path : Path} {directory : List String} {name : String} {number : Nat}
    (hfile : v'.entryAt? (directory ++ [name]) = some (.file number))
    (hlocate : v.locate through path = .ok (.free directory name false)) :
    v'.locate through path = .ok (.taken (directory ++ [name]) .file) := by
  unfold locate at hlocate ⊢
  split at hlocate
  · cases hlocate
  · rename_i hempty
    rw [if_neg hempty, h.current]
    exact follow_eq_ok_iff.2 (h.leads_of_free hfile (follow_eq_ok_iff.1 hlocate))

end Within

theorem entryAt?_of_locate {path : Path} {directory : List String} {name : String} {slash : Bool}
    (h : v.locate through path = .ok (.free directory name slash)) :
    v.entryAt? (directory ++ [name]) = none := by
  unfold locate at h
  split at h
  · cases h
  · exact (follow_eq_ok_iff.1 h).entryAt?_eq_none

/-! ## What lets a volume grow -/

theorem entryAt?_add (v : Volume) (directory : List String) (name : String) (entry : Entry)
    (place : List String) :
    (v.add (directory ++ [name]) entry).entryAt? place
      = if place = directory ++ [name] then some entry else v.entryAt? place := by
  unfold entryAt? add
  by_cases hplace : place = directory ++ [name]
  · rw [if_pos hplace, hplace, if_neg (by simp), List.find?_cons_of_pos (by simp)]
    rfl
  · rw [if_neg hplace, List.find?_cons_of_neg (by simpa using Ne.symm hplace)]

/-- A free name may come to stand for anything, a file that is there now
included. -/
theorem within_add {directory : List String} {name : String} {entry : Entry} {files : List File}
    (hfree : v.entryAt? (directory ++ [name]) = none) (hcount : v.files.length ≤ files.length)
    (hnumber : ∀ number, entry = .file number → number < files.length) :
    v.Within { v.add (directory ++ [name]) entry with files } := by
  have hentryAt : ∀ place, entryAt? { v.add (directory ++ [name]) entry with files } place
      = if place = directory ++ [name] then some entry else v.entryAt? place :=
    v.entryAt?_add directory name entry
  refine ⟨fun place entry' hentry => ?_, rfl, fun hv place number hentry => ?_⟩
  · rw [hentryAt, if_neg]
    · exact hentry
    · rintro rfl
      rw [hfree] at hentry
      cases hentry
  · rw [hentryAt] at hentry
    split at hentry
    · exact hnumber number (Option.some.inj hentry)
    · exact Nat.lt_of_lt_of_le (hv place number hentry) hcount

theorem within_modifyFile (v : Volume) (number : Nat) (change : File → File) :
    v.Within (v.modifyFile number change) := by
  refine ⟨fun _ _ hentry => hentry, rfl, fun hv place number' hentry => ?_⟩
  have hlength : (v.modifyFile number change).files.length = v.files.length :=
    List.length_modify ..
  rw [hlength]
  exact hv place number' hentry

/-- **A volume with more directories** and nothing else. -/
structure OnlyDirectories (v v' : Volume) : Prop where
  /-- The files are the same. -/
  files : v'.files = v.files
  /-- New names stand for directories. -/
  entries : ∀ place, v'.entryAt? place ≠ v.entryAt? place → v'.entryAt? place = some .directory

instance : IsPreorder Volume OnlyDirectories where
  refl _ := ⟨rfl, fun _ hne => absurd rfl hne⟩
  trans v v₁ v₂ h h' := by
    refine ⟨h'.files.trans h.files, fun place hne => ?_⟩
    by_cases heq : v₂.entryAt? place = v₁.entryAt? place
    · rw [heq] at hne ⊢
      exact h.entries place hne
    · exact h'.entries place heq

theorem exists_add_of_makeDirectory {path : Path} (h : v.makeDirectory path = .ok v') :
    ∃ directory name, v.entryAt? (directory ++ [name]) = none
      ∧ v' = v.add (directory ++ [name]) .directory := by
  unfold makeDirectory at h
  cases hlocate : v.locate false path with
  | error refusal =>
    rw [hlocate] at h
    cases h
  | ok spot =>
    rw [hlocate] at h
    cases spot with
    | taken place kind => cases h
    | free directory name slash =>
      cases h
      exact ⟨directory, name, entryAt?_of_locate hlocate, rfl⟩

theorem within_makeDirectory {path : Path} (h : v.makeDirectory path = .ok v') :
    v.Within v' := by
  obtain ⟨directory, name, hfree, rfl⟩ := exists_add_of_makeDirectory h
  exact within_add hfree (Nat.le_refl v.files.length) nofun

theorem onlyDirectories_makeDirectory {path : Path} (h : v.makeDirectory path = .ok v') :
    v.OnlyDirectories v' := by
  obtain ⟨directory, name, -, rfl⟩ := exists_add_of_makeDirectory h
  refine ⟨rfl, fun place hne => ?_⟩
  rw [entryAt?_add] at hne ⊢
  split at hne
  · rw [if_pos ‹_›]
  · exact absurd rfl hne

/-- **A text that has been written to a path**: the path leads to a file that
holds it, and but for directories nothing else has changed. -/
structure WrittenTo (v v' : Volume) (path : Path) (text : String) (place : List String)
    (number : Nat) : Prop where
  /-- The path leads to a place. -/
  locate : v'.locate true path = .ok (.taken place .file)
  /-- A file is there. -/
  entry : v'.entryAt? place = some (.file number)
  /-- It holds the text. -/
  text : ∃ file, v'.files[number]? = some file ∧ file.contents = text.toUTF8
  /-- Other files are as they were. -/
  files : ∀ number' ≠ number, v'.files[number']? = v.files[number']?
  /-- Other new names stand for directories. -/
  entries : ∀ place' ≠ place, v'.entryAt? place' ≠ v.entryAt? place' →
    v'.entryAt? place' = some .directory

/-- A path leads to a file with a number. -/
theorem number?_eq_some_iff {path : Path} {number : Nat} :
    v.number? path = some number
      ↔ ∃ place, v.locate true path = .ok (.taken place .file)
        ∧ v.entryAt? place = some (.file number) := by
  unfold number?
  constructor
  · intro h
    split at h
    · rename_i place hlocate
      refine ⟨place, hlocate, ?_⟩
      obtain ⟨entry, hentry, hnumber⟩ := Option.bind_eq_some_iff.1 h
      cases entry with
      | file number' =>
        cases hnumber
        exact hentry
      | directory => cases hnumber
      | link target => cases hnumber
    · cases h
  · rintro ⟨place, hlocate, hentry⟩
    rw [hlocate]
    dsimp only
    rw [numberAt?, hentry]
    rfl

theorem Within.number?_eq (h : v.Within v') {path : Path} {number : Nat}
    (hnumber : v.number? path = some number) : v'.number? path = some number := by
  obtain ⟨place, hlocate, hentry⟩ := number?_eq_some_iff.1 hnumber
  exact number?_eq_some_iff.2 ⟨place, h.locate_eq hlocate, h.entryAt _ _ hentry⟩

/-- What writing to a path can do: replace the text of a file, or create one
with the next number. -/
theorem writeText_cases {path : Path} {text : String} (h : v.writeText path text = .ok v') :
    (∃ place number, v.locate true path = .ok (.taken place .file)
        ∧ v.numberAt? place = some number
        ∧ v' = v.modifyFile number ({ · with contents := text.toUTF8 }))
      ∨ ∃ directory name, v.locate true path = .ok (.free directory name false)
        ∧ v' = { v.add (directory ++ [name]) (.file v.files.length) with
          files := v.files ++ [⟨text.toUTF8, false⟩] } := by
  unfold writeText at h
  split at h
  · cases hlocate : v.locate true (FileTree.withoutSlashes path) <;>
    · rw [hlocate] at h
      cases h
  · cases hlocate : v.locate true path with
    | error refusal =>
      rw [hlocate] at h
      cases h
    | ok spot =>
      rw [hlocate] at h
      match spot with
      | .taken _ .directory => cases h
      | .free _ _ true => cases h
      | .free directory name false =>
        cases h
        exact .inr ⟨directory, name, rfl, rfl⟩
      | .taken place .file =>
        cases hnumber : v.numberAt? place with
        | none =>
          simp only [bind, Except.bind, hnumber] at h
          cases h
        | some number =>
          simp only [bind, Except.bind, hnumber] at h
          cases h
          exact .inl ⟨place, number, rfl, hnumber, rfl⟩

/-- A file whose text is replaced is the only one that changes. -/
theorem writtenTo_modifyFile (hv : v.Numbered) {path : Path} {place : List String} {number : Nat}
    (hlocate : v.locate true path = .ok (.taken place .file))
    (hnumber : v.numberAt? place = some number) (text : String) :
    v.WrittenTo (v.modifyFile number ({ · with contents := text.toUTF8 })) path text place
      number := by
  have hwithin := v.within_modifyFile number ({ · with contents := text.toUTF8 })
  have hpath : v.number? path = some number := by
    unfold number?
    rw [hlocate]
    exact hnumber
  obtain ⟨place', hlocate', hentry⟩ := number?_eq_some_iff.1 hpath
  obtain rfl : place = place' := by
    rw [hlocate] at hlocate'
    cases hlocate'
    rfl
  obtain ⟨file, hfile⟩ : ∃ file, v.files[number]? = some file :=
    ⟨_, List.getElem?_eq_getElem (hv place number hentry)⟩
  refine ⟨hwithin.locate_eq hlocate, hentry, ⟨{ file with contents := text.toUTF8 }, ?_, rfl⟩,
    fun number' hne => List.getElem?_modify_ne _ _ hne.symm,
    fun place' _ hchanged => absurd rfl hchanged⟩
  unfold modifyFile
  rw [List.getElem?_modify_eq, hfile]
  rfl

/-- A file that is created is the only new one, and so is its name. -/
theorem writtenTo_add {path : Path} {directory : List String} {name : String}
    (hlocate : v.locate true path = .ok (.free directory name false)) (text : String) :
    let v' := { v.add (directory ++ [name]) (.file v.files.length) with
      files := v.files ++ [⟨text.toUTF8, false⟩] }
    v.Within v' ∧ v.WrittenTo v' path text (directory ++ [name]) v.files.length := by
  intro v'
  have hwithin : v.Within v' := by
    refine within_add (entryAt?_of_locate hlocate) (by simp) ?_
    rintro number ⟨⟩
    simp
  have hentry : ∀ place, v'.entryAt? place
      = if place = directory ++ [name] then some (.file v.files.length) else v.entryAt? place :=
    v.entryAt?_add directory name _
  have hfile := (hentry (directory ++ [name])).trans (if_pos rfl)
  refine ⟨hwithin, hwithin.locate_of_free hfile hlocate, hfile,
    ⟨⟨text.toUTF8, false⟩, by simp [v'], rfl⟩, fun number' hne => ?_, fun place' hne hchanged => ?_⟩
  · dsimp only [v']
    rw [List.getElem?_append]
    split
    · rfl
    · rw [List.getElem?_eq_none (by simp; omega), List.getElem?_eq_none (by omega)]
  · rw [hentry, if_neg hne] at hchanged
    exact absurd rfl hchanged

/-- **Writing to a path** puts the text into one file. -/
theorem exists_of_writeText {path : Path} {text : String} (h : v.writeText path text = .ok v') :
    v.Within v' ∧ (v.Numbered → ∃ place number, v.WrittenTo v' path text place number) := by
  obtain ⟨place, number, hlocate, hnumber, rfl⟩ | ⟨directory, name, hlocate, rfl⟩ :=
    writeText_cases h
  · exact ⟨v.within_modifyFile number _, fun hv =>
      ⟨place, number, writtenTo_modifyFile hv hlocate hnumber text⟩⟩
  · obtain ⟨hwithin, hwritten⟩ := writtenTo_add hlocate text
    exact ⟨hwithin, fun _ => ⟨_, _, hwritten⟩⟩

end ScriptToShell.Volume
