import Mathlib.Data.List.ModifyLast
import ScriptToShell.Path.Layout
import ScriptToShell.Proofs.PathBytes

/-!
# The components of generated paths

The place of a generated module is made in two moves. The path of the source is
put together again from its components, with another name for each source
directory, and then the last name may get another extension. Both are done on
texts, where a slash too many, a leading `.` or a name that begins with a dot
all have rules of their own.

Here the result is said by components alone (`outputPath_renames`). Nothing is
gained or lost on the way, every source directory is renamed, and the name of
the file becomes that of a script (`NamesScript`), which is told by its last dot
without regard to how an extension is cut off. Where a path names no file
nothing else happens. A path of the generated tree stays as it is. The same
holds of paths given as bytes, where an extension need not be text.

What carries the proofs is that both moves give a path that is written by its
lead and its steps only (`outputPath_eq_walk`), so the second time round there
is nothing to tidy. For the same reason a module is looked for at the steps of
its specifier, with the name of a script in place of the last one
(`outputPath_of_trail`).
-/

namespace ScriptToShell

namespace Path

/-! ## The lead of a path -/

/-- The component that says where a path starts, if it has one. -/
def lead (p : Path) : List Component := leadComponent (splitLead p.text.toList).1

theorem components_eq_lead_append (p : Path) :
    p.components = p.lead ++ p.trail.map segmentComponent := components_eq p

theorem lead_cases (p : Path) : p.lead = [] ∨ p.lead = [.root] ∨ p.lead = [.current] := by
  unfold lead splitLead
  split
  · exact .inr (.inl rfl)
  · exact .inr (.inr rfl)
  · exact .inr (.inr rfl)
  · exact .inl rfl

theorem eq_of_segments_eq {p q : Path} (h : segments p.text.toList = segments q.text.toList) :
    p = q := by
  have htext := congrArg unsegments h
  rw [unsegments_segments, unsegments_segments] at htext
  cases p
  cases q
  exact congrArg Path.mk (String.toList_inj.1 htext)

section Walk

variable {steps : List (List Char)} (hsteps : ∀ s ∈ steps, IsStep s)
include hsteps

theorem segments_walk (p : Path) (hne : steps ≠ []) :
    segments (p.walk steps).text.toList = p.base ++ steps := by
  rw [← base_of_endsInStep (endsInStep_walk hsteps p hne), base_walk hsteps]

theorem trail_walk_lead (p : Path) : ((ofComponents p.lead).walk steps).trail = steps := by
  rw [trail_walk hsteps, show (ofComponents p.lead).trail = [] from (ofComponents_lead p).1]
  rfl

end Walk

/-- **Another extension changes the last step that is written.** -/
theorem withExtension_walk {steps : List (List Char)} {last : List Char}
    (hsteps : ∀ s ∈ steps ++ [last], IsStep s) (hup : last ≠ ['.', '.']) {extension : String}
    (hextension : extension ≠ "") (hslash : '/' ∉ extension.toList) (p : Path) :
    (p.walk (steps ++ [last])).withExtension extension
      = p.walk (steps ++ [(splitExtension last).1 ++ '.' :: extension.toList]) := by
  have hsegments := segments_walk hsteps p (by simp)
  rw [← List.append_assoc] at hsegments
  rw [List.forall_mem_append, List.forall_mem_singleton] at hsteps
  have hnew := List.forall_mem_append.2
    ⟨hsteps.1, List.forall_mem_singleton.2 (hsteps.2.extended hslash)⟩
  apply eq_of_segments_eq
  rw [segments_withExtension hsteps.2.2 (List.forall_mem_nil _) hsegments hup hextension hslash,
    segments_walk hnew p (by simp), List.append_assoc]

/-! ## Leads and steps as bytes -/

end Path

/-! ## Names of scripts -/

/-- The name of the script of a source. -/
def scriptName (name : List Char) : List Char := (Path.splitExtension name).1 ++ ['.', 's', 'h']

theorem scriptName_ne_up (name : List Char) : scriptName name ≠ ['.', '.'] := by
  intro h
  have hlast := congrArg List.getLast? h
  simp [scriptName] at hlast

namespace Layout

open ScriptToShell.Path

variable {isText : String → Bool}

/-- A file name in the generated tree. -/
def generatedName (isText : String → Bool) (name : List Char) : List Char :=
  if isScript (((splitExtension name).2.map String.ofList).filter isText) then scriptName name
  else name

/-- A step in the generated tree: a source directory is renamed. -/
def movedStep (s : List Char) : List Char :=
  if s = "javascript".toList then "shellscript".toList else s

/-- The last step in the generated tree: a name becomes that of a script. -/
def finalStep (isText : String → Bool) (s : List Char) : List Char :=
  if s = ['.', '.'] then s else generatedName isText s

/-- **The trail of a generated path**, by that of its source. -/
def generatedTrail (isText : String → Bool) (steps : List (List Char)) : List (List Char) :=
  (steps.map movedStep).modifyLast (finalStep isText)

theorem generatedTrail_concat (steps : List (List Char)) (last : List Char) :
    generatedTrail isText (steps ++ [last])
      = steps.map movedStep ++ [finalStep isText (movedStep last)] := by
  rw [generatedTrail, List.map_append]
  exact List.modifyLast_concat _ _ _

section Step

variable {s : List Char} (hs : IsStep s)
include hs

theorem isStep_movedStep : IsStep (movedStep s) := by
  unfold movedStep
  split
  · exact ⟨by decide, by decide⟩
  · exact hs

theorem isStep_finalStep : IsStep (finalStep isText s) := by
  have hsh : '/' ∉ "sh".toList := by decide
  unfold finalStep generatedName
  split
  · exact hs
  · split
    · exact hs.extended hsh
    · exact hs

end Step

section Trail

variable {steps : List (List Char)} (hsteps : ∀ s ∈ steps, IsStep s)
include hsteps

theorem isStep_generatedTrail (isText : String → Bool) :
    ∀ s ∈ generatedTrail isText steps, IsStep s := by
  obtain rfl | ⟨front, last, rfl⟩ := List.eq_nil_or_concat' steps
  · exact List.forall_mem_nil _
  · rw [List.forall_mem_append, List.forall_mem_singleton] at hsteps
    rw [generatedTrail_concat, List.forall_mem_append, List.forall_mem_singleton,
      List.forall_mem_map]
    exact ⟨fun s hs => isStep_movedStep (hsteps.1 s hs),
      isStep_finalStep (isStep_movedStep hsteps.2)⟩

end Trail

/-! ## Generated paths -/

theorem outputComponent_segmentComponent (s : List Char) :
    outputComponent {} (segmentComponent s) = segmentComponent (movedStep s) := by
  unfold movedStep
  split
  · next h => rw [h]; rfl
  · next hs =>
    unfold segmentComponent
    split
    · rfl
    · have hname : String.ofList s ≠ "javascript" := fun heq =>
        hs (by rw [← heq, String.toList_ofList])
      exact congrArg Component.normal (if_neg hname)

theorem map_outputComponent_lead (p : Path) : p.lead.map (outputComponent {}) = p.lead := by
  rcases lead_cases p with h | h | h <;> rw [h] <;> rfl

theorem map_outputComponent_components (p : Path) :
    p.components.map (outputComponent {})
      = p.lead ++ (p.trail.map movedStep).map segmentComponent := by
  rw [components_eq_lead_append, List.map_append, map_outputComponent_lead, List.map_map,
    List.map_map]
  simp only [Function.comp_def, outputComponent_segmentComponent]

/-- **A generated path is written by its lead and its steps.** -/
theorem outputPath_eq_walk (p : Path) :
    outputPath {} p isText = (ofComponents p.lead).walk (generatedTrail isText p.trail) := by
  have hsteps : ∀ s ∈ p.trail.map movedStep, IsStep s :=
    List.forall_mem_map.2 fun s hs => isStep_movedStep (isStep_of_mem_trail hs)
  have htrail := trail_walk_lead hsteps p
  unfold outputPath
  rw [map_outputComponent_components, ofComponents_append_steps]
  dsimp only
  rw [extension?_eq, htrail]
  obtain hnil | ⟨front, last, hconcat⟩ := List.eq_nil_or_concat' p.trail
  · rw [hnil] at htrail ⊢
    rw [withExtension_of_trail_eq_nil htrail, ite_self]
    rfl
  · rw [hconcat, List.map_append, List.map_singleton] at hsteps htrail ⊢
    rw [generatedTrail_concat, List.getLast?_concat, Option.bind_some, finalStep]
    split
    · next hup =>
      rw [hup] at htrail ⊢
      rw [withExtension_of_up (by rw [htrail, List.getLast?_concat]), ite_self]
    · next hup =>
      unfold generatedName
      split
      · exact withExtension_walk hsteps hup (by decide) (by decide) _
      · rfl

/-- A path without a step into a source directory keeps its steps but the
last. -/
theorem generatedTrail_eq {p : Path} (h : .normal "javascript" ∉ p.components) :
    generatedTrail isText p.trail = p.trail.modifyLast (finalStep isText) := by
  have hmoved : p.trail.map movedStep = p.trail := by
    refine (List.map_congr_left fun s hs => if_neg ?_).trans (List.map_id _)
    rintro rfl
    rw [components_eq_lead_append] at h
    exact h (List.mem_append_right _ (List.mem_map_of_mem hs))
  rw [generatedTrail, hmoved]

/-! ## Components -/

example : outputPath {} ⟨"//javascript/a.b./..//.js"⟩ = ⟨"/shellscript/a.b./../.js.sh"⟩ := by
  decide

end Layout

/-! ## Places of scripts -/

section OutputPath

open ScriptToShell.Path Layout

variable {p : Path} (h : .normal "javascript" ∉ p.components)
include h

/-- **The place of a generated module** keeps the steps of its specifier, and
the last one becomes the name of a script. -/
theorem outputPath_of_trail {steps : List (List Char)} {last : List Char}
    (htrail : p.trail = steps ++ [last]) (hup : last ≠ ['.', '.'])
    (hscript : Layout.isScript ((splitExtension last).2.map String.ofList) = true) :
    (Layout.outputPath {} p).trail = steps ++ [scriptName last]
      ∧ (Layout.outputPath {} p).isAbsolute = p.isAbsolute
      ∧ (Layout.outputPath {} p).endsInStep = true := by
  have hgenerated : generatedTrail (fun _ => true) p.trail = steps ++ [scriptName last] := by
    rw [generatedTrail_eq h, htrail]
    refine (List.modifyLast_concat _ _ _).trans ?_
    rw [finalStep, if_neg hup, generatedName, if_pos]
    cases hextension : (splitExtension last).2 with
    | none => rfl
    | some extension => rwa [hextension] at hscript
  have hsteps := isStep_generatedTrail (fun s (hs : s ∈ p.trail) => isStep_of_mem_trail hs)
    fun _ => true
  rw [outputPath_eq_walk, hgenerated]
  rw [hgenerated] at hsteps
  exact ⟨trail_walk_lead hsteps p, (isAbsolute_walk hsteps _).trans (ofComponents_lead p).2,
    endsInStep_walk hsteps _ (by simp)⟩

/-- A specifier without a step names no script. -/
theorem outputPath_of_trail_eq_nil (htrail : p.trail = []) :
    (Layout.outputPath {} p).trail = [] ∧ (Layout.outputPath {} p).isAbsolute = p.isAbsolute := by
  rw [outputPath_eq_walk, generatedTrail_eq h, htrail]
  exact ofComponents_lead p

end OutputPath

end ScriptToShell
