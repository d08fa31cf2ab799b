import Mathlib.Order.Defs.Unbundled
import ScriptToShell.Build.Project

/-!
# Runs on a store

What is built on a store of files is an action that reads the store and
changes it, and that may fail. This module follows such actions on a store
held in memory, whatever it looks like inside. A run succeeds (`Yields`) or it
fails (`Fails`), and both come apart along the steps of the action.

The actions on a store are of two kinds. Those that only look at it are
described by what they see (`Reads`), of the others it is enough to know that
they lead along a relation that can be followed step by step (`Moves`). A
build looks at the store but for the scripts it writes, so it leads along any
relation that writing a script leads along (`moves_buildProject`).

A build that fails stops at one source, and it has done for those before it
what it does for them alone (`fails_compileAll`).
-/

namespace ScriptToShell

variable {S α β : Type}

/-! ## Actions that look at a store -/

/-- **An action that only looks at the store**, with what it sees. -/
def Reads (x : StateM S α) (sight : S → α) : Prop :=
  ∀ t, StateT.run x t = (sight t, t)

theorem reads_pure (a : α) : Reads (S := S) (pure a) fun _ => a := fun _ => rfl

/-- A run goes on with what has been seen. -/
theorem Reads.run_bind {x : StateM S α} {sight : S → α} (h : Reads x sight)
    (f : α → StateM S β) (t : S) :
    StateT.run (x >>= f) t = StateT.run (f (sight t)) t := by
  rw [StateT.run_bind, h t]
  rfl

theorem reads_bind {x : StateM S α} {sight : S → α} {f : α → StateM S β}
    {sights : α → S → β} (hx : Reads x sight) (hf : ∀ a, Reads (f a) (sights a)) :
    Reads (x >>= f) fun t => sights (sight t) t := by
  intro t
  rw [hx.run_bind]
  exact hf (sight t) t

theorem reads_mapM {x : α → StateM S β} {sights : α → S → β}
    (h : ∀ a, Reads (x a) (sights a)) (as : List α) :
    Reads (as.mapM x) fun t => as.map fun a => sights a t := by
  induction as with
  | nil => exact reads_pure []
  | cons a as ih =>
    rw [List.mapM_cons]
    exact reads_bind (h a) fun b => reads_bind ih fun bs => reads_pure (b :: bs)

theorem reads_filterMapM {x : α → StateM S (Option β)} {sights : α → S → Option β}
    (h : ∀ a, Reads (x a) (sights a)) (as : List α) :
    Reads (as.filterMapM x) fun t => as.filterMap fun a => sights a t := by
  induction as with
  | nil => exact reads_pure []
  | cons a as ih =>
    rw [List.filterMapM_cons]
    intro t
    dsimp only
    rw [(h a).run_bind, List.filterMap_cons]
    cases sights a t with
    | none => exact ih t
    | some b => exact reads_bind ih (fun bs => reads_pure (b :: bs)) t

/-! ## Actions that change a store -/

/-- **An action that leads from a store to a related one**, whatever comes of
it. -/
def Moves (R : S → S → Prop) (x : StateM S α) : Prop :=
  ∀ t, R t (StateT.run x t).2

/-- A change is made, or it is refused. -/
theorem run_update (change : S → Except Refusal S) (t : S) :
    StateT.run (FileStore.update change) t
      = match change t with
        | .ok t' => (.ok (), t')
        | .error refusal => (.error refusal, t) := by
  have hget : Reads (get : StateM S S) fun t => t := fun _ => rfl
  unfold FileStore.update
  rw [hget.run_bind]
  cases change t <;> rfl

theorem eq_ok_of_run_update {change : S → Except Refusal S} {t t' : S}
    (h : StateT.run (FileStore.update change) t = (.ok (), t')) : change t = .ok t' := by
  rw [run_update] at h
  cases hchange : change t with
  | error refusal =>
    rw [hchange] at h
    cases h
  | ok t₁ =>
    rw [hchange] at h
    cases h
    rfl

section Moves

variable {R : S → S → Prop} [IsPreorder S R]

theorem Reads.moves {x : StateM S α} {sight : S → α} (h : Reads x sight) : Moves R x := by
  intro t
  rw [h t]
  exact refl_of R t

theorem moves_pure (a : α) : Moves R (pure a) := (reads_pure a).moves

theorem moves_bind {x : StateM S α} {f : α → StateM S β} (hx : Moves R x)
    (hf : ∀ a, Moves R (f a)) : Moves R (x >>= f) := by
  intro t
  rw [StateT.run_bind]
  exact trans_of R (hx t) (hf _ _)

theorem moves_update {change : S → Except Refusal S} (h : ∀ t t', change t = .ok t' → R t t') :
    Moves R (FileStore.update change) := by
  intro t
  rw [run_update]
  cases hchange : change t with
  | error refusal => exact refl_of R t
  | ok t' => exact h t t' hchange

theorem moves_mapM {x : α → StateM S β} (hx : ∀ a, Moves R (x a)) (as : List α) :
    Moves R (as.mapM x) := by
  induction as with
  | nil => exact moves_pure _
  | cons a as ih =>
    rw [List.mapM_cons]
    exact moves_bind (hx a) fun _ => moves_bind ih fun _ => moves_pure _

theorem moves_filterMapM {x : α → StateM S (Option β)} (hx : ∀ a, Moves R (x a)) (as : List α) :
    Moves R (as.filterMapM x) := by
  induction as with
  | nil => exact moves_pure _
  | cons a as ih =>
    rw [List.filterMapM_cons]
    refine moves_bind (hx a) fun outcome => ?_
    cases outcome with
    | none => exact ih
    | some b => exact moves_bind ih fun _ => moves_pure _

theorem moves_run_bind {x : ExceptT Failure (StateM S) α} {f : α → ExceptT Failure (StateM S) β}
    (hx : Moves R x.run) (hf : ∀ a, Moves R (f a).run) : Moves R (x >>= f).run := by
  rw [ExceptT.run_bind]
  refine moves_bind hx fun outcome => ?_
  cases outcome with
  | error failure => exact moves_pure _
  | ok a => exact hf a

theorem moves_lift {x : StateM S α} (h : Moves R x) :
    Moves R (ExceptT.lift x : ExceptT Failure (StateM S) α).run := by
  rw [ExceptT.run_lift]
  exact moves_bind h fun _ => moves_pure _

theorem moves_orFail {action : StateM S (Except Refusal α)} (h : Moves R action)
    (failure : Refusal → Failure) : Moves R (orFail action failure).run := by
  refine moves_run_bind (moves_lift h) fun outcome => ?_
  cases outcome with
  | error refusal => exact moves_pure _
  | ok a => exact moves_pure _

theorem moves_inSource (source : SourceMap) (outcome : Except Fault α) :
    Moves R (inSource (m := StateM S) source outcome).run := by
  cases outcome with
  | ok a => exact moves_pure _
  | error fault => exact moves_pure _

theorem moves_run_mapM {x : α → ExceptT Failure (StateM S) β} (hx : ∀ a, Moves R (x a).run)
    (as : List α) : Moves R (as.mapM x).run := by
  induction as with
  | nil => exact moves_pure _
  | cons a as ih =>
    rw [List.mapM_cons]
    exact moves_run_bind (hx a) fun _ => moves_run_bind ih fun _ => moves_pure _

end Moves

/-! ## Runs that succeed -/

/-- **A run that succeeds** on a store, with its result and the store it
leaves. -/
def Yields (x : ExceptT Failure (StateM S) α) (t : S) (a : α) (t' : S) : Prop :=
  StateT.run x.run t = (.ok a, t')

section Yields

variable {t t' : S} {a : α} {b : β}

theorem Yields.unique {x : ExceptT Failure (StateM S) α} {a' : α} {t'' : S}
    (h : Yields x t a t') (h' : Yields x t a' t'') : a' = a ∧ t'' = t' := by
  have heq := h'.symm.trans h
  exact ⟨Except.ok.inj (Prod.mk.inj heq).1, (Prod.mk.inj heq).2⟩

theorem exists_yields {x : ExceptT Failure (StateM S) α}
    (h : (StateT.run x.run t).1.isOk = true) : ∃ a t', Yields x t a t' := by
  unfold Yields
  rcases hrun : StateT.run x.run t with ⟨failure | a, t₁⟩
  · rw [hrun] at h
    cases h
  · exact ⟨a, t₁, rfl⟩

theorem yields_pure_iff {c : α} : Yields (pure a) t c t' ↔ a = c ∧ t = t' := by
  show ((Except.ok a : Except Failure α), t) = (.ok c, t') ↔ _
  rw [Prod.mk.injEq, Except.ok.injEq]

theorem yields_bind_iff {x : ExceptT Failure (StateM S) α}
    {f : α → ExceptT Failure (StateM S) β} :
    Yields (x >>= f) t b t' ↔ ∃ a t₁, Yields x t a t₁ ∧ Yields (f a) t₁ b t' := by
  unfold Yields
  rw [ExceptT.run_bind, StateT.run_bind]
  rcases StateT.run x.run t with ⟨failure | a, t₁⟩
  · refine iff_of_false (fun h => ?_) ?_
    · cases h
    · rintro ⟨a, t₂, h, -⟩
      cases h
  · refine ⟨fun h => ⟨a, t₁, rfl, h⟩, ?_⟩
    rintro ⟨a', t₂, h, h'⟩
    cases h
    exact h'

theorem yields_lift_run_iff {x : StateM S α} :
    Yields (ExceptT.lift x) t a t' ↔ StateT.run x t = (a, t') := by
  unfold Yields
  rw [ExceptT.run_lift, StateT.run_map]
  rcases StateT.run x t with ⟨b, t₁⟩
  show ((Except.ok b : Except Failure α), t₁) = (.ok a, t') ↔ _
  rw [Prod.mk.injEq, Prod.mk.injEq, Except.ok.injEq]

theorem yields_lift_iff {x : StateM S α} {sight : S → α} (h : Reads x sight) :
    Yields (ExceptT.lift x) t a t' ↔ sight t = a ∧ t = t' := by
  rw [yields_lift_run_iff, h t, Prod.mk.injEq]

theorem yields_inSource_iff {source : SourceMap} {outcome : Except Fault α} :
    Yields (inSource source outcome) t a t' ↔ outcome = .ok a ∧ t = t' := by
  cases outcome with
  | error fault =>
    refine iff_of_false (fun h => ?_) (fun h => ?_)
    · cases h
    · cases h.1
  | ok c =>
    rw [Except.ok.injEq]
    exact yields_pure_iff

theorem yields_orFail_run_iff {action : StateM S (Except Refusal α)}
    {failure : Refusal → Failure} :
    Yields (orFail action failure) t a t' ↔ StateT.run action t = (.ok a, t') := by
  unfold orFail
  rw [yields_bind_iff]
  constructor
  · rintro ⟨outcome, t₁, haction, hrest⟩
    cases outcome with
    | error refusal => cases hrest
    | ok b =>
      obtain ⟨rfl, rfl⟩ := yields_pure_iff.1 hrest
      exact yields_lift_run_iff.1 haction
  · intro h
    exact ⟨.ok a, t', yields_lift_run_iff.2 h, yields_pure_iff.2 ⟨rfl, rfl⟩⟩

theorem yields_orFail_iff {action : StateM S (Except Refusal α)}
    {sight : S → Except Refusal α} (h : Reads action sight) {failure : Refusal → Failure} :
    Yields (orFail action failure) t a t' ↔ sight t = .ok a ∧ t = t' := by
  rw [yields_orFail_run_iff, h t, Prod.mk.injEq]

/-- What is yielded one by one for a list, if each run leaves the store
alone and its result tells what it is for. -/
theorem yields_mapM {x : α → ExceptT Failure (StateM S) β} {key : β → α} {P : β → Prop}
    (hx : ∀ a b t', Yields (x a) t b t' → t' = t ∧ key b = a ∧ P b) {as : List α} {bs : List β}
    (h : Yields (as.mapM x) t bs t') : t' = t ∧ bs.map key = as ∧ ∀ b ∈ bs, P b := by
  induction as generalizing bs with
  | nil =>
    obtain ⟨rfl, rfl⟩ := yields_pure_iff.1 h
    exact ⟨rfl, rfl, nofun⟩
  | cons a as ih =>
    rw [List.mapM_cons, yields_bind_iff] at h
    obtain ⟨b, t₁, hb, hrest⟩ := h
    obtain ⟨rfl, hkey, hP⟩ := hx a b t₁ hb
    obtain ⟨bs', t₂, hbs, hpure⟩ := yields_bind_iff.1 hrest
    obtain ⟨rfl, rfl⟩ := yields_pure_iff.1 hpure
    obtain ⟨rfl, hkeys, hall⟩ := ih hbs
    exact ⟨rfl, by rw [List.map_cons, hkey, hkeys], List.forall_mem_cons.2 ⟨hP, hall⟩⟩

theorem yields_mapM_map {γ : Type} {x : α → ExceptT Failure (StateM S) β} {p : γ → α}
    {q : γ → β} {cs : List γ} (h : ∀ c ∈ cs, Yields (x (p c)) t (q c) t) :
    Yields ((cs.map p).mapM x) t (cs.map q) t := by
  induction cs with
  | nil => exact yields_pure_iff.2 ⟨rfl, rfl⟩
  | cons c cs ih =>
    rw [List.forall_mem_cons] at h
    rw [List.map_cons, List.mapM_cons]
    exact yields_bind_iff.2 ⟨q c, t, h.1, yields_bind_iff.2 ⟨cs.map q, t, ih h.2,
      yields_pure_iff.2 ⟨rfl, rfl⟩⟩⟩

theorem Moves.of_yields {R : S → S → Prop} {x : ExceptT Failure (StateM S) α}
    (hx : Moves R x.run) (h : Yields x t a t') : R t t' := by
  have hmoves := hx t
  rw [h] at hmoves
  exact hmoves

end Yields

/-! ## Runs that fail -/

/-- **A run that fails** on a store, with its failure and the store it
leaves. -/
def Fails (x : ExceptT Failure (StateM S) α) (t : S) (failure : Failure) (t' : S) : Prop :=
  StateT.run x.run t = (.error failure, t')

section Fails

variable {t t' : S} {failure : Failure}

theorem not_fails_pure (a : α) : ¬Fails (pure a) t failure t' := by
  intro h
  cases h

theorem not_fails_lift (x : StateM S α) : ¬Fails (ExceptT.lift x) t failure t' := by
  intro h
  unfold Fails at h
  rw [ExceptT.run_lift, StateT.run_map] at h
  cases h

/-- **A sequence fails** in its first part, or behind it. -/
theorem fails_bind_iff {x : ExceptT Failure (StateM S) α}
    {f : α → ExceptT Failure (StateM S) β} :
    Fails (x >>= f) t failure t'
      ↔ Fails x t failure t' ∨ ∃ a t₁, Yields x t a t₁ ∧ Fails (f a) t₁ failure t' := by
  unfold Fails Yields
  rw [ExceptT.run_bind, StateT.run_bind]
  rcases StateT.run x.run t with ⟨failure' | a, t₁⟩
  · refine ⟨fun h => .inl ?_, ?_⟩
    · cases h
      rfl
    · rintro (h | ⟨a, t₂, h, -⟩)
      · cases h
        rfl
      · cases h
  · refine ⟨fun h => .inr ⟨a, t₁, rfl, h⟩, ?_⟩
    rintro (h | ⟨a', t₂, h, h'⟩)
    · cases h
    · cases h
      exact h'

theorem fails_inSource_iff {source : SourceMap} {outcome : Except Fault α} :
    Fails (inSource source outcome) t failure t'
      ↔ ∃ fault, outcome = .error fault ∧ .faulty fault source = failure ∧ t = t' := by
  cases outcome with
  | ok a => exact iff_of_false (not_fails_pure a) fun ⟨_, h, _⟩ => nomatch h
  | error fault =>
    constructor
    · intro h
      cases h
      exact ⟨fault, rfl, rfl, rfl⟩
    · rintro ⟨_, ⟨⟩, rfl, rfl⟩
      rfl

theorem fails_orFail_iff {action : StateM S (Except Refusal α)} {raise : Refusal → Failure} :
    Fails (orFail action raise) t failure t'
      ↔ ∃ reason, StateT.run action t = (.error reason, t') ∧ raise reason = failure := by
  unfold orFail
  refine fails_bind_iff.trans ((or_iff_right (not_fails_lift action)).trans ?_)
  constructor
  · rintro ⟨outcome, t₁, haction, hrest⟩
    cases outcome with
    | ok a => exact absurd hrest (not_fails_pure a)
    | error reason =>
      cases hrest
      exact ⟨reason, yields_lift_run_iff.1 haction, rfl⟩
  · rintro ⟨reason, haction, rfl⟩
    exact ⟨.error reason, t', yields_lift_run_iff.2 haction, rfl⟩

/-- Where runs one by one for a list leave the store alone, one of them fails
if all together do. -/
theorem exists_fails_of_mapM {x : α → ExceptT Failure (StateM S) β}
    (hx : ∀ a b t', Yields (x a) t b t' → t' = t) {as : List α}
    (h : Fails (as.mapM x) t failure t') : ∃ a ∈ as, Fails (x a) t failure t' := by
  induction as with
  | nil => exact absurd h (not_fails_pure _)
  | cons a as ih =>
    rw [List.mapM_cons, fails_bind_iff] at h
    obtain ha | ⟨b, t₁, hb, hrest⟩ := h
    · exact ⟨a, List.mem_cons_self, ha⟩
    · obtain rfl := hx a b t₁ hb
      obtain has | ⟨_, _, -, hpure⟩ := fails_bind_iff.1 hrest
      · obtain ⟨a', ha', hfails⟩ := ih has
        exact ⟨a', List.mem_cons_of_mem a ha', hfails⟩
      · exact absurd hpure (not_fails_pure _)

theorem Moves.of_fails {R : S → S → Prop} {x : ExceptT Failure (StateM S) α}
    (hx : Moves R x.run) (h : Fails x t failure t') : R t t' := by
  have hmoves := hx t
  rw [h] at hmoves
  exact hmoves

end Fails

/-! ## What is built on a store -/

/-- **A store that reading does not change.** -/
class FileStore.Steady (S : Type) [FileStore (StateM S)] : Prop where
  kind? : ∀ path, Moves Eq (FileStore.kind? path : StateM S (Option FileKind))
  readText : ∀ path, Moves Eq (FileStore.readText path : StateM S (Except Refusal String))
  canonical : ∀ path, Moves Eq (FileStore.canonical path : StateM S (Except Refusal Path))
  filesUnder : ∀ path, Moves Eq (FileStore.filesUnder path : StateM S (Except Refusal (List Path)))

/-- What leaves a store alone leads along any relation. -/
theorem Moves.of_eq {R : S → S → Prop} [IsPreorder S R] {x : StateM S α} (h : Moves Eq x) :
    Moves R x := by
  intro t
  rw [← h t]
  exact refl_of R t

variable [FileStore (StateM S)]

/-- Writes a script to a directory that is there. -/
def putScript (path : Path) (text : String) (executable : Bool) :
    ExceptT Failure (StateM S) Unit := do
  orFail (m := StateM S) (FileStore.writeText path text) (.unwritable path)
  if executable then
    ExceptT.lift (FileStore.markExecutable path : StateM S Unit)

/-- Before a script is written, its directory is made if it has a name. -/
theorem writeScript_cases (path : Path) (text : String) (executable : Bool) :
    writeScript (m := StateM S) path text executable = putScript path text executable
      ∨ ∃ directory, path.parent = some directory ∧ directory.text.isEmpty = false
        ∧ writeScript path text executable = (do
          orFail (m := StateM S) (FileStore.makeDirectories directory)
            (.uncreatable directory)
          putScript path text executable) := by
  unfold writeScript
  cases path.parent with
  | none => exact .inl rfl
  | some directory =>
    cases hempty : directory.text.isEmpty with
    | true =>
      dsimp only
      rw [hempty]
      exact .inl rfl
    | false =>
      refine .inr ⟨directory, rfl, hempty, ?_⟩
      dsimp only
      rw [hempty]
      rfl

/-- A failure to write. -/
def Failure.IsOfWriting : Failure → Prop
  | .uncreatable .. | .unwritable .. => True
  | _ => False

theorem fails_writeScript {t t' : S} {path : Path} {text : String} {executable : Bool}
    {failure : Failure} (h : Fails (writeScript path text executable) t failure t') :
    failure.IsOfWriting := by
  have hput : ∀ t : S, Fails (putScript path text executable) t failure t' →
      failure.IsOfWriting := by
    intro t h
    obtain hput | ⟨_, _, -, hmark⟩ := fails_bind_iff.1 h
    · obtain ⟨reason, -, rfl⟩ := fails_orFail_iff.1 hput
      exact trivial
    · cases executable with
      | false => exact absurd hmark (not_fails_pure _)
      | true => exact absurd hmark (not_fails_lift _)
  obtain heq | ⟨directory, -, -, heq⟩ := writeScript_cases (S := S) path text executable
  · rw [heq] at h
    exact hput t h
  · rw [heq] at h
    obtain hmake | ⟨_, t₁, -, hrest⟩ := fails_bind_iff.1 h
    · obtain ⟨reason, -, rfl⟩ := fails_orFail_iff.1 hmake
      exact trivial
    · exact hput t₁ hrest

section Steady

variable [FileStore.Steady S] {R : S → S → Prop} [IsPreorder S R]

theorem moves_kindIs (path : Path) (kind : FileKind) :
    Moves R (do return (← (FileStore.kind? path : StateM S (Option FileKind))) = some kind
      : StateM S Bool) :=
  moves_bind (FileStore.Steady.kind? path).of_eq fun _ => moves_pure _

section Directories

variable (hmake : ∀ path, Moves R (FileStore.makeDirectory path : StateM S (Except Refusal Unit)))
include hmake

theorem moves_ensureDirectory (path : Path) :
    Moves R (FileStore.ensureDirectory (m := StateM S) path) := by
  unfold FileStore.ensureDirectory
  refine moves_bind (hmake path) fun outcome => ?_
  cases outcome with
  | ok done => exact moves_pure _
  | error refusal => exact moves_bind (moves_kindIs path .directory) fun _ => moves_pure _

/-- Each step creates one directory, after those above it. -/
theorem moves_makeDirectoriesUpTo (limit : Nat) (path : Path) :
    Moves R (FileStore.makeDirectoriesUpTo (m := StateM S) limit path) := by
  induction limit generalizing path with
  | zero => exact moves_pure _
  | succ limit ih =>
    unfold FileStore.makeDirectoriesUpTo
    split
    · exact moves_pure _
    · refine moves_bind (moves_ensureDirectory hmake path) fun outcome => ?_
      split
      · split
        · exact moves_pure _
        · refine moves_bind (ih _) fun above => ?_
          cases above with
          | error refusal => exact moves_pure _
          | ok done => exact moves_ensureDirectory hmake path
      · exact moves_pure _

/-- Writing a script is making directories, writing a text and marking it. -/
theorem moves_writeScript
    (hput : ∀ path text, Moves R (FileStore.writeText path text : StateM S (Except Refusal Unit)))
    (hmark : ∀ path, Moves R (FileStore.markExecutable path : StateM S Unit))
    (path : Path) (text : String) (executable : Bool) :
    Moves R (writeScript (m := StateM S) path text executable).run := by
  have hscript : Moves R (putScript (S := S) path text executable).run := by
    refine moves_run_bind (moves_orFail (hput path text) _) fun _ => ?_
    split
    · exact moves_lift (hmark path)
    · exact moves_pure _
  obtain heq | ⟨directory, -, -, heq⟩ := writeScript_cases (S := S) path text executable
  · rw [heq]
    exact hscript
  · rw [heq]
    exact moves_run_bind (moves_orFail (moves_makeDirectoriesUpTo hmake _ directory) _)
      fun _ => hscript

end Directories

omit [IsPreorder S R] in
/-- **A script is put into the store that making its directory leaves.**
Whatever creating a directory leads along leads to that store. -/
theorem exists_putScript_of_yields {t t' : S} {path : Path} {text : String} {executable : Bool}
    (h : Yields (writeScript path text executable) t () t') :
    ∃ t₁, Yields (putScript path text executable) t₁ () t'
      ∧ ∀ (R : S → S → Prop) [IsPreorder S R],
        (∀ path, Moves R (FileStore.makeDirectory path : StateM S (Except Refusal Unit))) →
          R t t₁ := by
  obtain heq | ⟨directory, -, -, heq⟩ := writeScript_cases (S := S) path text executable
  · rw [heq] at h
    exact ⟨t, h, fun R _ _ => refl_of R t⟩
  · rw [heq] at h
    obtain ⟨_, t₁, hmake, hrest⟩ := yields_bind_iff.1 h
    refine ⟨t₁, hrest, fun R _ hmoves => ?_⟩
    have hmove : R t (StateT.run (FileStore.makeDirectories (m := StateM S) directory) t).2 :=
      moves_makeDirectoriesUpTo hmoves _ directory t
    rw [yields_orFail_run_iff.1 hmake] at hmove
    exact hmove

theorem moves_importedSource? (importer : Path) (specifier : String) :
    Moves R (importedSource? (m := StateM S) importer specifier) := by
  unfold importedSource?
  split
  · exact moves_pure _
  · exact moves_bind (FileStore.Steady.canonical _).of_eq fun _ => moves_pure _

theorem moves_readSourceFile (path : Path) :
    Moves R (readSourceFile (m := StateM S) path).run := by
  unfold readSourceFile readSource
  refine moves_run_bind (moves_run_bind (moves_orFail
    (FileStore.Steady.readText path).of_eq _) fun _ => moves_pure _)
    fun source => moves_run_bind (moves_inSource _ _) fun program => ?_
  exact moves_run_bind (moves_lift (moves_filterMapM (moves_importedSource? path) _))
    fun _ => moves_pure _

omit [IsPreorder S R] in
/-- What is read at a path has the path, and the store stays as it is. -/
theorem of_yields_readSourceFile {t t' : S} {path : Path} {f : SourceFile}
    (h : Yields (readSourceFile path) t f t') : t' = t ∧ f.path = path := by
  have hkeeps : Moves Eq (readSourceFile (m := StateM S) path).run := moves_readSourceFile path
  refine ⟨(hkeeps.of_yields h).symm, ?_⟩
  unfold readSourceFile at h
  obtain ⟨source, _, -, h⟩ := yields_bind_iff.1 h
  obtain ⟨program, _, -, h⟩ := yields_bind_iff.1 h
  obtain ⟨imports, _, -, h⟩ := yields_bind_iff.1 h
  obtain ⟨rfl, -⟩ := yields_pure_iff.1 h
  rfl

theorem moves_readProject (src : Path) : Moves R (readProject (m := StateM S) src).run := by
  unfold readProject
  exact moves_run_bind (moves_orFail (FileStore.Steady.canonical src).of_eq _) fun root =>
    moves_run_bind (moves_orFail (FileStore.Steady.filesUnder root).of_eq _) fun _ =>
      moves_run_bind (moves_run_mapM moves_readSourceFile _) fun _ => moves_pure _

theorem moves_settingFor (root : Path) (texts : List (Path × String)) (importer : Path)
    (options : Options) (program : Program) :
    Moves R (settingFor (m := StateM S) options (builtText root texts importer) program) := by
  have hbuilt : ∀ specifier, Moves R (builtText (m := StateM S) root texts importer specifier) := by
    intro specifier
    unfold builtText
    refine moves_bind (moves_importedSource? importer specifier) fun found => ?_
    dsimp only
    split
    · exact moves_pure _
    · unfold moduleText
      refine moves_bind (moves_kindIs _ .file) fun isFile => ?_
      split
      · refine moves_bind (FileStore.Steady.readText _).of_eq fun outcome => ?_
        cases outcome with
        | ok text => exact moves_pure _
        | error refusal => exact moves_pure _
      · exact moves_pure _
  exact moves_bind (moves_mapM (fun specifier => moves_bind (hbuilt specifier)
    fun _ => moves_pure _) _) fun _ => moves_pure _

variable {r : Request} (hwrite : r.mode = .emit → ∀ path text,
  Moves R (writeScript (m := StateM S) path text r.executable).run)
include hwrite

/-- **A build changes a store by what it writes**, whatever comes of it. -/
theorem moves_compileAll (root out : Path) (texts : List (Path × String))
    (files : List SourceFile) :
    Moves R (compileAll (m := StateM S) root out r texts files).run := by
  induction files generalizing texts with
  | nil => exact moves_pure _
  | cons file files ih =>
    unfold compileAll
    refine moves_run_bind (moves_lift (moves_settingFor root texts file.path _ _)) fun w =>
      moves_run_bind (moves_inSource _ _) fun chunks => ?_
    have hrest := fun texts => moves_run_bind (ih texts) fun compiled =>
      moves_pure (R := R) (.ok (⟨⟨file.path, scriptPath root out file.path⟩,
        Shell.script r.options chunks⟩ :: compiled))
    dsimp only
    split
    · next hmode => exact moves_run_bind (hwrite hmode _ _) fun _ => hrest _
    · exact hrest _

theorem moves_buildProject (src out : Path) :
    Moves R (buildProject (m := StateM S) src out r).run := by
  unfold buildProject
  refine moves_run_bind (moves_readProject src) fun project =>
    moves_run_bind ?_ fun _ => moves_pure _
  unfold compileProject
  split
  · exact moves_pure _
  · exact moves_compileAll hwrite _ out [] _

end Steady

/-! ## One source after the other -/

section Compile

variable {root out : Path} {r : Request} {texts : List (Path × String)} {file : SourceFile}
  {files : List SourceFile} {t t' : S} {modules : List CompiledModule}

/-- **One step of a build**: a source is compiled, with a text for the sources
behind it, and its script is written if scripts are asked for. -/
def compileStep (root out : Path) (r : Request) (texts : List (Path × String))
    (file : SourceFile) : ExceptT Failure (StateM S) (String × CompiledModule) := do
  let w ← ExceptT.lift (settingFor r.options
    (builtText (m := StateM S) root texts file.path) file.program)
  let chunks ← inSource file.source (file.program.chunks w)
  let output := scriptPath root out file.path
  if r.mode = .emit then writeScript output (Shell.script r.options chunks) r.executable
  return (Shell.script { r.options with shebang := false } chunks,
    ⟨⟨file.path, output⟩, Shell.script r.options chunks⟩)

theorem compileAll_cons (root out : Path) (r : Request) (texts : List (Path × String))
    (file : SourceFile) (files : List SourceFile) :
    compileAll (m := StateM S) root out r texts (file :: files) = (do
      let step ← compileStep root out r texts file
      let rest ← compileAll root out r ((file.path, step.1) :: texts) files
      return step.2 :: rest) := by
  rw [compileAll.eq_2, compileStep]
  simp only [bind_assoc]
  refine congrArg _ (funext fun w => congrArg _ (funext fun chunks => ?_))
  split <;> simp only [bind_assoc, pure_bind]

theorem yields_compileAll_cons_iff :
    Yields (compileAll root out r texts (file :: files)) t modules t'
      ↔ ∃ text m t₁ rest, Yields (compileStep root out r texts file) t (text, m) t₁
        ∧ Yields (compileAll root out r ((file.path, text) :: texts) files) t₁ rest t'
        ∧ m :: rest = modules := by
  rw [compileAll_cons, yields_bind_iff]
  constructor
  · rintro ⟨⟨text, m⟩, t₁, hstep, hrest⟩
    obtain ⟨rest, t₂, hcompile, hpure⟩ := yields_bind_iff.1 hrest
    obtain ⟨rfl, rfl⟩ := yields_pure_iff.1 hpure
    exact ⟨text, m, t₁, rest, hstep, hcompile, rfl⟩
  · rintro ⟨text, m, t₁, rest, hstep, hrest, rfl⟩
    exact ⟨(text, m), t₁, hstep, yields_bind_iff.2 ⟨rest, t', hrest, yields_pure_iff.2 ⟨rfl, rfl⟩⟩⟩

variable [FileStore.Steady S]

/-- What a step makes of a source. -/
theorem yields_compileStep {text : String} {m : CompiledModule}
    (h : Yields (compileStep root out r texts file) t (text, m) t') :
    m.toBuiltModule = ⟨file.path, scriptPath root out file.path⟩
      ∧ (r.mode = .emit → Yields (writeScript m.output m.text r.executable) t () t') := by
  unfold compileStep at h
  obtain ⟨w, t₁, hw, hrest⟩ := yields_bind_iff.1 h
  obtain rfl : t = t₁ := (moves_lift (moves_settingFor root texts file.path _ _)).of_yields hw
  obtain ⟨chunks, t₁, hchunks, hrest⟩ := yields_bind_iff.1 hrest
  obtain ⟨-, rfl⟩ := yields_inSource_iff.1 hchunks
  dsimp only at hrest
  split at hrest
  · obtain ⟨⟨⟩, t₁, hwrite, hpure⟩ := yields_bind_iff.1 hrest
    obtain ⟨heq, rfl⟩ := yields_pure_iff.1 hpure
    obtain ⟨-, rfl⟩ := Prod.mk.inj heq
    refine ⟨rfl, fun _ => ?_⟩
    dsimp only
    exact hwrite
  · next hmode =>
    obtain ⟨heq, rfl⟩ := yields_pure_iff.1 hrest
    obtain ⟨-, rfl⟩ := Prod.mk.inj heq
    exact ⟨rfl, fun hemit => absurd hemit hmode⟩

/-- A step fails at a source that has no script in its setting, unless it is
for want of a place to write to. -/
theorem fails_compileStep {failure : Failure}
    (h : Fails (compileStep root out r texts file) t failure t') (hwrites : ¬failure.IsOfWriting) :
    ∃ w fault, StateT.run (settingFor r.options (builtText (m := StateM S) root texts file.path)
        file.program) t = (w, t)
      ∧ file.program.chunks w = .error fault ∧ .faulty fault file.source = failure ∧ t = t' := by
  unfold compileStep at h
  obtain hlift | ⟨w, t₁, hw, hrest⟩ := fails_bind_iff.1 h
  · exact absurd hlift (not_fails_lift _)
  · obtain rfl : t = t₁ := (moves_lift (moves_settingFor root texts file.path _ _)).of_yields hw
    obtain hfault | ⟨chunks, t₁, -, hrest⟩ := fails_bind_iff.1 hrest
    · obtain ⟨fault, hfault⟩ := fails_inSource_iff.1 hfault
      exact ⟨w, fault, yields_lift_run_iff.1 hw, hfault⟩
    · dsimp only at hrest
      split at hrest
      · obtain hwrite | ⟨_, _, -, hpure⟩ := fails_bind_iff.1 hrest
        · exact absurd (fails_writeScript hwrite) hwrites
        · exact absurd hpure (not_fails_pure _)
      · exact absurd hrest (not_fails_pure _)

/-- **A build that fails has done what it does for the sources before.** -/
theorem fails_compileAll {failure : Failure}
    (h : Fails (compileAll root out r texts files) t failure t') (hwrites : ¬failure.IsOfWriting) :
    ∃ before f after modules, files = before ++ f :: after
      ∧ Yields (compileAll root out r texts before) t modules t'
      ∧ Fails (compileAll root out r texts (before ++ [f])) t failure t'
      ∧ ∃ texts' w fault, StateT.run (settingFor r.options
          (builtText (m := StateM S) root texts' f.path) f.program) t' = (w, t')
        ∧ f.program.chunks w = .error fault ∧ failure = .faulty fault f.source := by
  induction files generalizing texts t with
  | nil => exact absurd h (not_fails_pure _)
  | cons file files ih =>
    rw [compileAll_cons] at h
    obtain hstep | ⟨⟨text, m⟩, t₁, hstep, hrest⟩ := fails_bind_iff.1 h
    · obtain ⟨w, fault, hw, hfault, rfl, rfl⟩ := fails_compileStep hstep hwrites
      refine ⟨[], file, files, [], rfl, yields_pure_iff.2 ⟨rfl, rfl⟩, ?_,
        texts, w, fault, hw, hfault, rfl⟩
      rw [List.nil_append, compileAll_cons]
      exact fails_bind_iff.2 (.inl hstep)
    · obtain hrest | ⟨_, _, -, hpure⟩ := fails_bind_iff.1 hrest
      · obtain ⟨before, f, after, modules, rfl, hbefore, hstops, hfault⟩ := ih hrest
        refine ⟨file :: before, f, after, m :: modules, rfl,
          yields_compileAll_cons_iff.2 ⟨text, m, t₁, modules, hstep, hbefore, rfl⟩, ?_, hfault⟩
        rw [List.cons_append, compileAll_cons]
        exact fails_bind_iff.2 (.inr ⟨_, t₁, hstep, fails_bind_iff.2 (.inl hstops)⟩)
      · exact absurd hpure (not_fails_pure _)

/-- The modules of a build are its sources, with the paths of their
scripts. -/
theorem map_toBuiltModule_of_yields (h : Yields (compileAll root out r texts files) t modules t') :
    modules.map (·.toBuiltModule)
      = files.map fun f => ⟨f.path, scriptPath root out f.path⟩ := by
  induction files generalizing texts t modules with
  | nil =>
    obtain ⟨rfl, -⟩ := yields_pure_iff.1 h
    rfl
  | cons file files ih =>
    obtain ⟨text, m, t₁, rest, hstep, hrest, rfl⟩ := yields_compileAll_cons_iff.1 h
    rw [List.map_cons, List.map_cons, ih hrest, (yields_compileStep hstep).1]

end Compile

end ScriptToShell
