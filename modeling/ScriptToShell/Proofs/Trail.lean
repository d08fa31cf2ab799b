import Mathlib.Data.List.DropRight
import ScriptToShell.Proofs.TreeGrowth

/-!
# The trail of a path

Where a path leads depends on two things: where it starts, and the steps it
takes from there. The steps are its **trail** (`Path.trail`), the segments of
its text that are not idle. Writing a path behind another one, taking off its
last component, giving it another extension and putting it together from its
components are all described by what they do to the trail and to the start,
so that nothing else has to look at the text of a path.
-/

namespace ScriptToShell

namespace Path

/-! ## Segments -/

theorem not_mem_of_mem_segments {cs s : List Char} (h : s ∈ segments cs) : '/' ∉ s := by
  induction cs generalizing s with
  | nil =>
    rw [List.mem_singleton.1 h]
    exact List.not_mem_nil
  | cons c cs ih =>
    by_cases hc : c = '/'
    · subst hc
      rw [segments_slash] at h
      rcases List.mem_cons.1 h with rfl | hmem
      · exact List.not_mem_nil
      · exact ih hmem
    · obtain ⟨s', ss, hss, hcons⟩ := segments_cons hc cs
      rw [hcons] at h
      rw [hss] at ih
      rcases List.mem_cons.1 h with rfl | hmem
      · rw [List.mem_cons, not_or]
        exact ⟨Ne.symm hc, ih List.mem_cons_self⟩
      · exact ih (List.mem_cons_of_mem s' hmem)

theorem unsegments_cons (s : List Char) {ss : List (List Char)} (h : ss ≠ []) :
    unsegments (s :: ss) = s ++ '/' :: unsegments ss := by
  cases ss with
  | nil => exact absurd rfl h
  | cons t ss => rfl

theorem head?_unsegments {s : List Char} (hs : s ≠ []) (ss : List (List Char)) :
    (unsegments (s :: ss)).head? = s.head? := by
  cases ss with
  | nil => rfl
  | cons t ss => exact List.head?_append_of_ne_nil _ hs

theorem head?_unsegments_cons (s : List Char) {ss : List (List Char)} (h : ss ≠ []) :
    (unsegments (s :: ss)).head? = (s ++ ['/']).head? := by
  rw [unsegments_cons s h]
  cases s <;> rfl

theorem unsegments_cons_concat (s t : List Char) (ss : List (List Char)) :
    unsegments (s :: ss ++ [t]) = s ++ '/' :: unsegments (ss ++ [t]) := by
  rw [List.cons_append]
  exact unsegments_cons s (by simp)

theorem segments_unsegments {ss : List (List Char)} (hne : ss ≠ []) (h : ∀ s ∈ ss, '/' ∉ s) :
    segments (unsegments ss) = ss := by
  induction ss with
  | nil => exact absurd rfl hne
  | cons s ss ih =>
    rw [List.forall_mem_cons] at h
    by_cases hss : ss = []
    · subst hss
      exact segments_of_not_mem h.1
    · rw [unsegments_cons s hss, segments_append, segments_of_not_mem h.1, ih hss h.2]
      rfl

theorem unsegments_segments (cs : List Char) : unsegments (segments cs) = cs := by
  induction cs with
  | nil => rfl
  | cons c cs ih =>
    by_cases hc : c = '/'
    · subst hc
      rw [segments_slash, unsegments_cons [] (segments_ne_nil cs), ih]
      rfl
    · obtain ⟨s, ss, hss, hcons⟩ := segments_cons hc cs
      rw [hcons]
      rw [hss] at ih
      cases ss with
      | nil => exact congrArg (c :: ·) ih
      | cons t ss => exact congrArg (c :: ·) ih

/-- What is written behind a text, without a slash, goes to its last
segment. -/
theorem exists_segments_append (cs : List Char) :
    ∃ ss s, ∀ ending, '/' ∉ ending → segments (cs ++ ending) = ss ++ [s ++ ending] := by
  induction cs with
  | nil => exact ⟨[], [], fun ending h => segments_of_not_mem h⟩
  | cons c cs ih =>
    obtain ⟨ss, s, hss⟩ := ih
    by_cases hc : c = '/'
    · subst hc
      refine ⟨[] :: ss, s, fun ending h => ?_⟩
      rw [List.cons_append, segments_slash, hss ending h, List.cons_append]
    · cases ss with
      | nil =>
        refine ⟨[], c :: s, fun ending h => ?_⟩
        rw [List.cons_append, segments, if_neg hc, hss ending h]
        rfl
      | cons s' ss =>
        refine ⟨(c :: s') :: ss, s, fun ending h => ?_⟩
        rw [List.cons_append, segments, if_neg hc, hss ending h]
        rfl

/-- A text that does not end in a slash does not end in an empty segment. -/
theorem getLast?_segments_ne_nil {cs : List Char} (hne : cs ≠ []) (h : cs.getLast? ≠ some '/') :
    (segments cs).getLast? ≠ some [] := by
  obtain ⟨front, c, rfl⟩ := (List.eq_nil_or_concat' cs).resolve_left hne
  have hc : '/' ∉ [c] := by
    rw [List.mem_singleton]
    rintro rfl
    exact h List.getLast?_concat
  obtain ⟨ss, s, hsegments⟩ := exists_segments_append front
  rw [hsegments [c] hc, List.getLast?_concat]
  simp

/-! ## Trails -/

/-- The segments of a text that are not idle. -/
def trailOf (cs : List Char) : List (List Char) := (segments cs).filter (!isIdle ·)

/-- **The trail of a path**: the steps it takes from where it starts. -/
def trail (p : Path) : List (List Char) := trailOf p.text.toList

/-- Whether the last segment of a path is a step. -/
def endsInStep (p : Path) : Bool := (segments p.text.toList).getLast?.any (!isIdle ·)

theorem trailOf_slash (cs : List Char) : trailOf ('/' :: cs) = trailOf cs := rfl

theorem trailOf_point {cs : List Char} (h : cs = [] ∨ cs.head? = some '/') :
    trailOf ('.' :: cs) = trailOf cs := by
  obtain rfl | hslash := h
  · rfl
  · obtain ⟨ds, rfl⟩ := List.head?_eq_some_iff.1 hslash
    rfl

theorem trailOf_unsegments {ss : List (List Char)} (h : ∀ s ∈ ss, '/' ∉ s) :
    trailOf (unsegments ss) = ss.filter (!isIdle ·) := by
  by_cases hne : ss = []
  · subst hne
    rfl
  · rw [trailOf, segments_unsegments hne h]

/-- The segments that a path contributes where another one is written
behind it: a slash at its end is not doubled. -/
def base (p : Path) : List (List Char) :=
  if p.text.isEmpty || p.text.toList.getLast? = some '/' then (segments p.text.toList).dropLast
  else segments p.text.toList

theorem filter_base (p : Path) : p.base.filter (!isIdle ·) = p.trail := by
  unfold base trail trailOf
  split
  · rename_i hend
    rcases Bool.or_eq_true_iff.1 hend with hempty | hslash
    · rw [String.isEmpty_iff.1 hempty]
      rfl
    · obtain ⟨cs, hcs⟩ := List.getLast?_eq_some_iff.1 (of_decide_eq_true hslash)
      rw [hcs, segments_append, List.filter_append]
      show List.filter _ (segments cs ++ [[]]).dropLast = _
      rw [List.dropLast_concat]
      exact (List.append_nil _).symm
  · rfl

/-- **A path behind another one goes on from there.** -/
theorem segments_join {p q : Path} (h : q.isAbsolute = false) :
    segments (p.join q).text.toList = p.base ++ segments q.text.toList := by
  unfold join base
  rw [if_neg (by rw [h]; exact Bool.false_ne_true)]
  split
  · rename_i hend
    rcases Bool.or_eq_true_iff.1 hend with hempty | hslash
    · rw [String.isEmpty_iff.1 hempty, String.empty_append]
      rfl
    · obtain ⟨cs, hcs⟩ := List.getLast?_eq_some_iff.1 (of_decide_eq_true hslash)
      rw [String.toList_append, hcs, List.append_assoc, segments_append, List.singleton_append,
        segments_append]
      show _ = (segments cs ++ [[]]).dropLast ++ _
      rw [List.dropLast_concat]
  · rw [String.toList_append, String.toList_append, List.append_assoc]
    exact segments_append _ _

theorem trail_join {p q : Path} (h : q.isAbsolute = false) :
    (p.join q).trail = p.trail ++ q.trail := by
  rw [trail, trailOf, segments_join h, List.filter_append, filter_base]
  rfl

theorem isAbsolute_join {p q : Path} (h : q.isAbsolute = false) :
    (p.join q).isAbsolute = p.isAbsolute := by
  unfold join
  rw [if_neg (by rw [h]; exact Bool.false_ne_true)]
  unfold isAbsolute at h ⊢
  by_cases hempty : p.text = ""
  · rw [hempty]
    simpa using h
  · have hne : p.text.toList ≠ [] := mt String.toList_eq_nil_iff.1 hempty
    split
    · rw [String.toList_append, List.head?_append_of_ne_nil _ hne]
    · rw [String.toList_append, String.toList_append, List.append_assoc,
        List.head?_append_of_ne_nil _ hne]

theorem join_of_isAbsolute {p q : Path} (h : q.isAbsolute = true) : p.join q = q := by
  unfold join
  rw [if_pos h]

theorem endsInStep_join (p q : Path) : (p.join q).endsInStep = q.endsInStep := by
  cases h : q.isAbsolute with
  | true => rw [join_of_isAbsolute h]
  | false =>
    unfold endsInStep
    rw [segments_join h, List.getLast?_append_of_ne_nil _ (segments_ne_nil _)]

/-! ## Paths made of steps -/

/-- **A segment that is a step.** -/
def IsStep (segment : List Char) : Prop := '/' ∉ segment ∧ isIdle segment = false

theorem isStep_of_mem_trail {p : Path} {s : List Char} (h : s ∈ p.trail) : IsStep s := by
  obtain ⟨hmem, hactive⟩ := List.mem_filter.1 h
  exact ⟨not_mem_of_mem_segments hmem, by simpa using hactive⟩

theorem IsStep.ne_nil {s : List Char} (h : IsStep s) : s ≠ [] := by
  rintro rfl
  exact Bool.noConfusion h.2

theorem IsStep.isAbsolute {s : List Char} (h : IsStep s) :
    isAbsolute ⟨String.ofList s⟩ = false := by
  unfold Path.isAbsolute
  rw [String.toList_ofList]
  cases s with
  | nil => rfl
  | cons c cs =>
    have hc : c ≠ '/' := fun heq => h.1 (heq ▸ List.mem_cons_self)
    simpa using hc

theorem text_of_endsInStep {p : Path} (h : p.endsInStep = true) :
    p.text.isEmpty = false ∧ p.text.toList.getLast? ≠ some '/' := by
  unfold endsInStep at h
  refine ⟨Bool.eq_false_iff.2 fun hempty => ?_, fun hslash => ?_⟩
  · rw [String.isEmpty_iff.1 hempty] at h
    exact Bool.noConfusion h
  · obtain ⟨cs, hcs⟩ := List.getLast?_eq_some_iff.1 hslash
    rw [hcs, segments_append, List.getLast?_append_of_ne_nil _ (segments_ne_nil _)] at h
    exact Bool.noConfusion h

/-- A path that ends in a step keeps all its segments where another one is
written behind it. -/
theorem base_of_endsInStep {p : Path} (h : p.endsInStep = true) :
    p.base = segments p.text.toList := by
  obtain ⟨hempty, hslash⟩ := text_of_endsInStep h
  unfold base
  rw [hempty, decide_eq_false hslash]
  rfl

section Steps

variable {s : List Char} (p : Path)

theorem endsInStep_join_step (hs : IsStep s) : (p.join ⟨String.ofList s⟩).endsInStep = true := by
  rw [endsInStep_join]
  unfold endsInStep
  rw [String.toList_ofList, segments_of_not_mem hs.1]
  show (!isIdle s) = true
  rw [hs.2]
  rfl

theorem base_join_step (hs : IsStep s) : (p.join ⟨String.ofList s⟩).base = p.base ++ [s] := by
  rw [base_of_endsInStep (endsInStep_join_step p hs), segments_join hs.isAbsolute,
    String.toList_ofList, segments_of_not_mem hs.1]

end Steps

/-- A path followed by steps. -/
def walk (p : Path) (steps : List (List Char)) : Path :=
  steps.foldl (fun p s => p.join ⟨String.ofList s⟩) p

section Walk

variable {steps : List (List Char)} (hsteps : ∀ s ∈ steps, IsStep s) (p : Path)
include hsteps

theorem base_walk : (p.walk steps).base = p.base ++ steps := by
  induction steps generalizing p with
  | nil => exact (List.append_nil _).symm
  | cons s steps ih =>
    rw [List.forall_mem_cons] at hsteps
    rw [walk, List.foldl_cons, ← walk, ih hsteps.2, base_join_step p hsteps.1, List.append_assoc]
    rfl

theorem trail_walk : (p.walk steps).trail = p.trail ++ steps := by
  rw [← filter_base, base_walk hsteps, List.filter_append, filter_base, List.filter_eq_self.2]
  exact fun s hs => by rw [(hsteps s hs).2]; rfl

theorem isAbsolute_walk : (p.walk steps).isAbsolute = p.isAbsolute := by
  induction steps generalizing p with
  | nil => rfl
  | cons s steps ih =>
    rw [List.forall_mem_cons] at hsteps
    rw [walk, List.foldl_cons, ← walk, ih hsteps.2, isAbsolute_join hsteps.1.isAbsolute]

theorem endsInStep_walk (hne : steps ≠ []) : (p.walk steps).endsInStep = true := by
  obtain ⟨before, last, rfl⟩ := List.eq_nil_or_concat' steps |>.resolve_left hne
  rw [walk, List.foldl_append]
  exact endsInStep_join_step _ (hsteps last (by simp))

end Walk

theorem ofComponents_append_steps (lead : List Component) (steps : List (List Char)) :
    ofComponents (lead ++ steps.map segmentComponent) = (ofComponents lead).walk steps := by
  have htext : (fun (p : Path) s => p.join ⟨(segmentComponent s).text⟩)
      = fun p s => p.join ⟨String.ofList s⟩ := by
    funext p s
    unfold segmentComponent
    split
    · next h => rw [h]; rfl
    · rfl
  unfold ofComponents walk
  rw [List.foldl_append, List.foldl_map, htext]

/-! ## Components -/

theorem trailOf_splitLead (cs : List Char) : trailOf (splitLead cs).2 = trailOf cs := by
  unfold splitLead
  split <;> rfl

/-- The components of a path are its lead and its trail. -/
theorem components_eq (p : Path) :
    p.components = leadComponent (splitLead p.text.toList).1 ++ p.trail.map segmentComponent := by
  rw [trail, ← trailOf_splitLead]
  rfl

theorem isAbsolute_ofList_cons (c : Char) (cs : List Char) :
    isAbsolute ⟨String.ofList (c :: cs)⟩ = decide (c = '/') := by
  simp [isAbsolute]

theorem isAbsolute_eq (p : Path) :
    p.isAbsolute = decide ((splitLead p.text.toList).1 = ['/']) := by
  unfold isAbsolute splitLead
  refine decide_eq_decide.2 ?_
  split
  · next cs hcs => simp [hcs]
  · next hcs => simp [hcs]
  · next cs hcs => simp [hcs]
  · next hslash _ _ =>
    refine iff_of_false (fun hhead => ?_) (List.cons_ne_nil _ _).symm
    obtain ⟨cs, hcs⟩ := List.head?_eq_some_iff.1 hhead
    exact hslash cs hcs

/-- The lead of a path says where it starts and takes no step. -/
theorem ofComponents_lead (p : Path) :
    (ofComponents (leadComponent (splitLead p.text.toList).1)).trail = []
      ∧ (ofComponents (leadComponent (splitLead p.text.toList).1)).isAbsolute = p.isAbsolute := by
  have hroot : (ofComponents [.root]).trail = [] ∧ (ofComponents [.root]).isAbsolute = true := by
    decide
  have hcurrent : (ofComponents [.current]).trail = []
      ∧ (ofComponents [.current]).isAbsolute = false := by decide
  have hnone : (ofComponents []).trail = [] ∧ (ofComponents []).isAbsolute = false := by decide
  rw [isAbsolute_eq p]
  unfold splitLead
  split
  · exact hroot
  · exact hcurrent
  · exact hcurrent
  · exact hnone

/-! ## File names -/

theorem head?_activeSegments (p : Path) :
    (activeSegments (splitLead p.text.toList).2).head? = p.trail.getLast? := by
  rw [trail, ← trailOf_splitLead, trailOf, List.getLast?_filter,
    List.find?_eq_head?_dropWhile_not]
  simp only [Bool.not_not]
  rfl

/-- **The extension of a path is that of its last step.** -/
theorem extension?_eq (p : Path) :
    p.extension? = p.trail.getLast?.bind fun last =>
      if last = ['.', '.'] then none else (splitExtension last).2.map String.ofList := by
  rw [← head?_activeSegments]
  unfold extension? fileName?
  cases activeSegments (splitLead p.text.toList).2 with
  | nil => rfl
  | cons last before =>
    dsimp only [List.head?_cons, Option.bind_some]
    split
    · rfl
    · rw [Option.bind_some, String.toList_ofList]

/-- **A name is cut at its last dot**, unless that comes first. -/
theorem splitExtension_append (stem : List Char) {extension : List Char}
    (hextension : '.' ∉ extension) :
    splitExtension (stem ++ '.' :: extension)
      = if stem = [] then (stem ++ '.' :: extension, none) else (stem, some extension) := by
  have hreverse :
      (stem ++ '.' :: extension).reverse = extension.reverse ++ '.' :: stem.reverse := by
    simp
  have hplain : ∀ c ∈ extension.reverse, decide (c ≠ '.') = true := fun c hc =>
    decide_eq_true fun heq => hextension (heq ▸ List.mem_reverse.1 hc)
  unfold splitExtension
  rw [hreverse, List.takeWhile_append_of_pos hplain, List.dropWhile_append_of_pos hplain,
    List.takeWhile_cons_of_neg (by simp), List.dropWhile_cons_of_neg (by simp)]
  by_cases hstem : stem = [] <;> simp [hstem]

/-- A name has no extension, or a stem and an extension. -/
theorem splitExtension_cases (name : List Char) :
    splitExtension name = (name, none)
      ∨ ∃ stem extension, stem ≠ [] ∧ '.' ∉ extension ∧ name = stem ++ '.' :: extension
        ∧ splitExtension name = (stem, some extension) := by
  by_cases hdot : '.' ∈ name
  · obtain ⟨extension, stem, hreverse, hplain⟩ :=
      List.eq_append_cons_of_mem (List.mem_reverse.2 hdot)
    have hname : name = stem.reverse ++ '.' :: extension.reverse := by
      rw [List.reverse_eq_iff.1 hreverse]
      simp
    have hsplit := splitExtension_append stem.reverse (mt List.mem_reverse.1 hplain)
    rw [← hname] at hsplit
    split at hsplit
    · exact .inl hsplit
    · next hstem => exact .inr ⟨_, _, hstem, mt List.mem_reverse.1 hplain, hname, hsplit⟩
  · left
    unfold splitExtension
    simp [hdot]

theorem splitExtension_ne_nil {name : List Char} (h : name ≠ []) :
    (splitExtension name).1 ≠ [] := by
  obtain hnone | ⟨stem, extension, hstem, -, -, hsome⟩ := splitExtension_cases name
  · rwa [hnone]
  · rwa [hsome]

theorem splitExtension_subset (name : List Char) : (splitExtension name).1 ⊆ name := by
  obtain hnone | ⟨stem, extension, -, -, hname, hsome⟩ := splitExtension_cases name
  · rw [hnone]
    exact fun c hc => hc
  · rw [hsome, hname]
    exact List.subset_append_left _ _

/-! ## The last step -/

section LastStep

variable {last : List Char} {idles : List (List Char)} (hlast : isIdle last = false)
  (hidles : ∀ s ∈ idles, isIdle s = true)

/-- A trail with a last step, read in the segments of the path: behind it
there are idle ones only. -/
theorem exists_segments {p : Path} {steps : List (List Char)} (h : p.trail = steps ++ [last]) :
    ∃ before idles, segments p.text.toList = before ++ last :: idles
      ∧ before.filter (!isIdle ·) = steps ∧ ∀ s ∈ idles, isIdle s = true := by
  obtain ⟨front, back, hsegments, hfront, hback⟩ := List.filter_eq_append_iff.1 h
  obtain ⟨skipped, idles, rfl, hskipped, -, hidles⟩ := List.filter_eq_cons_iff.1 hback
  refine ⟨front ++ skipped, idles, by rw [hsegments, List.append_assoc], ?_, ?_⟩
  · rw [List.filter_append, hfront, List.filter_eq_nil_iff.2 hskipped, List.append_nil]
  · simpa using List.filter_eq_nil_iff.1 hidles

include hlast hidles

theorem activeSegments_eq {rest : List Char} {inner : List (List Char)}
    (h : segments rest = inner ++ last :: idles) : activeSegments rest = last :: inner.reverse := by
  unfold activeSegments
  rw [h, List.reverse_append, List.reverse_cons, List.append_assoc,
    List.dropWhile_append_of_pos fun s hs => hidles s (List.mem_reverse.1 hs),
    List.singleton_append, List.dropWhile_cons_of_neg (by rw [hlast]; exact Bool.false_ne_true)]

omit hidles in
/-- How the lead of a path is cut off, where the path has a last step. -/
theorem splitLead_cases {cs : List Char} {before : List (List Char)}
    (h : segments cs = before ++ last :: idles) :
    (∃ inner rest, before = [] :: inner ∧ segments rest = inner ++ last :: idles
        ∧ splitLead cs = (['/'], rest))
      ∨ (∃ inner rest, before = ['.'] :: inner ∧ segments rest = [] :: inner ++ last :: idles
        ∧ splitLead cs = (['.'], rest))
      ∨ (before.head? ≠ some [] ∧ splitLead cs = ([], cs)) := by
  unfold splitLead
  split
  · next rest =>
    rw [segments_slash] at h
    cases before with
    | nil =>
      obtain ⟨rfl, -⟩ := List.cons.inj h
      exact Bool.noConfusion hlast
    | cons s inner =>
      obtain ⟨rfl, hrest⟩ := List.cons.inj h
      exact .inl ⟨inner, rest, rfl, hrest, rfl⟩
  · have hsingle : [['.']] = before ++ last :: idles := h
    cases before with
    | nil =>
      obtain ⟨rfl, -⟩ := List.cons.inj hsingle
      exact Bool.noConfusion hlast
    | cons s inner =>
      have hnil := (List.cons.inj hsingle).2
      exact absurd hnil.symm (by simp)
  · next rest =>
    have hpoint : segments ('.' :: '/' :: rest) = ['.'] :: segments rest := rfl
    rw [hpoint] at h
    cases before with
    | nil =>
      obtain ⟨rfl, -⟩ := List.cons.inj h
      exact Bool.noConfusion hlast
    | cons s inner =>
      obtain ⟨rfl, hrest⟩ := List.cons.inj h
      exact .inr (.inl ⟨inner, '/' :: rest, rfl, by rw [segments_slash, hrest]; rfl, rfl⟩)
  · next hslash hpoint hpoints =>
    refine .inr (.inr ⟨fun hbefore => ?_, rfl⟩)
    obtain ⟨inner, rfl⟩ := List.head?_eq_some_iff.1 hbefore
    -- a first segment that is empty has a slash behind it
    have hcs := unsegments_segments cs
    rw [h, List.cons_append, unsegments_cons [] (by simp), List.nil_append] at hcs
    exact hslash _ hcs.symm

/-- **Another extension replaces the last step**, and nothing is left behind
it. -/
theorem withExtension_eq {p : Path} {before : List (List Char)}
    (h : segments p.text.toList = before ++ last :: idles) (hup : last ≠ ['.', '.'])
    {extension : String} (hextension : extension ≠ "") :
    p.withExtension extension
      = ⟨String.ofList
          (unsegments (before ++ [(splitExtension last).1 ++ '.' :: extension.toList]))⟩ := by
  have hempty : extension.isEmpty = false := by simpa using hextension
  unfold withExtension
  obtain ⟨inner, rest, rfl, hrest, hlead⟩ | ⟨inner, rest, rfl, hrest, hlead⟩ | ⟨-, hlead⟩ :=
    splitLead_cases hlast h
  · rw [hlead]
    dsimp only
    rw [activeSegments_eq hlast hidles hrest]
    dsimp only
    rw [if_neg hup, hempty, List.reverse_reverse, unsegments_cons_concat]
    rfl
  · rw [hlead]
    dsimp only
    rw [activeSegments_eq hlast hidles hrest]
    dsimp only
    rw [if_neg hup, hempty, List.reverse_reverse, unsegments_cons_concat, unsegments_cons_concat]
    rfl
  · rw [hlead]
    dsimp only
    rw [activeSegments_eq hlast hidles h]
    dsimp only
    rw [if_neg hup, hempty, List.reverse_reverse]
    rfl

/-- The text of a path with another extension has the replaced step last. -/
theorem segments_withExtension {p : Path} {before : List (List Char)}
    (h : segments p.text.toList = before ++ last :: idles) (hup : last ≠ ['.', '.'])
    {extension : String} (hextension : extension ≠ "") (hslash : '/' ∉ extension.toList) :
    segments (p.withExtension extension).text.toList
      = before ++ [(splitExtension last).1 ++ '.' :: extension.toList] := by
  rw [withExtension_eq hlast hidles h hup hextension, String.toList_ofList,
    segments_unsegments (by simp)]
  have hfree : ∀ s ∈ before ++ last :: idles, '/' ∉ s := fun s hs =>
    not_mem_of_mem_segments (h ▸ hs)
  rw [List.forall_mem_append, List.forall_mem_cons] at hfree
  rw [List.forall_mem_append, List.forall_mem_singleton, List.mem_append, List.mem_cons]
  refine ⟨hfree.1, ?_⟩
  rintro (hstem | hpoint | hmem)
  · exact hfree.2.1 (splitExtension_subset last hstem)
  · exact absurd hpoint (by decide)
  · exact hslash hmem

end LastStep

/-- A step with another extension is a step. -/
theorem IsStep.extended {last : List Char} (h : IsStep last) {extension : String}
    (hslash : '/' ∉ extension.toList) :
    IsStep ((splitExtension last).1 ++ '.' :: extension.toList) := by
  obtain ⟨c, stem, hstem⟩ := List.exists_cons_of_ne_nil (splitExtension_ne_nil h.ne_nil)
  refine ⟨fun hmem => ?_, by rw [hstem]; simp [isIdle]⟩
  rcases List.mem_append.1 hmem with hmem | hmem
  · exact h.1 (splitExtension_subset last hmem)
  · exact hslash ((List.mem_cons.1 hmem).resolve_left (by decide))

section Extended

variable {p : Path} {steps : List (List Char)} {last : List Char} (h : p.trail = steps ++ [last])
  (hup : last ≠ ['.', '.']) {extension : String} (hextension : extension ≠ "")
  (hslash : '/' ∉ extension.toList)
include h hup hextension hslash

/-- **Another extension changes the last step only.** -/
theorem trail_withExtension : (p.withExtension extension).trail
    = steps ++ [(splitExtension last).1 ++ '.' :: extension.toList] := by
  have hstep : IsStep last := isStep_of_mem_trail (p := p) (by rw [h]; simp)
  have hnew := hstep.extended hslash
  obtain ⟨before, idles, hsegments, rfl, hidles⟩ := exists_segments h
  rw [trail, trailOf, segments_withExtension hstep.2 hidles hsegments hup hextension hslash,
    List.filter_append, List.filter_cons_of_pos (by rw [hnew.2]; rfl), List.filter_nil]

theorem endsInStep_withExtension : (p.withExtension extension).endsInStep = true := by
  have hstep : IsStep last := isStep_of_mem_trail (p := p) (by rw [h]; simp)
  have hnew := hstep.extended hslash
  obtain ⟨before, idles, hsegments, -, hidles⟩ := exists_segments h
  unfold endsInStep
  rw [segments_withExtension hstep.2 hidles hsegments hup hextension hslash, List.getLast?_concat,
    Option.any_some, hnew.2]
  rfl

theorem isAbsolute_withExtension : (p.withExtension extension).isAbsolute = p.isAbsolute := by
  have hstep : IsStep last := isStep_of_mem_trail (p := p) (by rw [h]; simp)
  have hnew := hstep.extended hslash
  obtain ⟨before, idles, hsegments, -, hidles⟩ := exists_segments h
  have htext : p.text.toList = unsegments (before ++ last :: idles) := by
    rw [← hsegments, unsegments_segments]
  unfold isAbsolute
  rw [withExtension_eq hstep.2 hidles hsegments hup hextension, String.toList_ofList, htext]
  have hhead : ∀ {s : List Char}, IsStep s → ∀ ss, (unsegments (s :: ss)).head? ≠ some '/' :=
    fun hs ss hslash => hs.1 (List.mem_of_head? ((head?_unsegments hs.ne_nil ss).symm.trans hslash))
  refine decide_eq_decide.2 ?_
  cases before with
  | nil => exact iff_of_false (hhead hnew []) (hhead hstep idles)
  | cons s ss =>
    rw [List.cons_append, List.cons_append, head?_unsegments_cons s (by simp),
      head?_unsegments_cons s (by simp)]

end Extended

theorem withExtension_of_trail_eq_nil {p : Path} (h : p.trail = []) (extension : String) :
    p.withExtension extension = p := by
  have hactive : activeSegments (splitLead p.text.toList).2 = [] := by
    rw [← List.head?_eq_none_iff, head?_activeSegments, h]
    rfl
  unfold withExtension
  dsimp only
  rw [hactive]

theorem withExtension_of_up {p : Path} (h : p.trail.getLast? = some ['.', '.'])
    (extension : String) :
    p.withExtension extension = p := by
  rw [← head?_activeSegments] at h
  obtain ⟨before, hactive⟩ := List.head?_eq_some_iff.1 h
  unfold withExtension
  dsimp only
  rw [hactive]
  rfl

/-! ## Cutting off the last step -/

theorem filter_rdropWhile (ss : List (List Char)) :
    (ss.rdropWhile isIdle).filter (!isIdle ·) = ss.filter (!isIdle ·) := by
  induction ss using List.reverseRecOn with
  | nil => rfl
  | append_singleton ss s ih =>
    by_cases hs : isIdle s = true
    · rw [List.rdropWhile_concat_pos _ _ _ hs, ih, List.filter_append,
        List.filter_cons_of_neg (by rw [hs]; exact Bool.false_ne_true), List.filter_nil,
        List.append_nil]
    · rw [List.rdropWhile_concat_neg _ _ _ hs]

/-- **The parent of a path takes its steps but the last**, from the same
start. -/
theorem exists_parent {p : Path} {steps : List (List Char)} {last : List Char}
    (h : p.trail = steps ++ [last]) :
    ∃ q, p.parent = some q ∧ q.trail = steps ∧ q.isAbsolute = p.isAbsolute := by
  obtain ⟨before, idles, hsegments, rfl, hidles⟩ := exists_segments h
  have hstep : IsStep last := isStep_of_mem_trail (p := p) (by rw [h]; simp)
  have hfree : ∀ s ∈ before, '/' ∉ s := fun s hs =>
    not_mem_of_mem_segments (hsegments ▸ List.mem_append_left _ hs)
  have hcut : ∀ {ss : List (List Char)}, (∀ s ∈ ss, '/' ∉ s) →
      trailOf (unsegments (ss.rdropWhile isIdle)) = ss.filter (!isIdle ·) := fun hss => by
    rw [trailOf_unsegments fun s hs => hss s ((List.rdropWhile_prefix _ _).subset hs),
      filter_rdropWhile]
  unfold parent
  rw [isAbsolute_eq p]
  obtain ⟨inner, rest, rfl, hrest, hlead⟩ | ⟨inner, rest, rfl, hrest, hlead⟩ | ⟨hne, hlead⟩ :=
    splitLead_cases hstep.2 hsegments
  · rw [hlead]
    dsimp only
    rw [activeSegments_eq hstep.2 hidles hrest]
    refine ⟨_, rfl, ?_, isAbsolute_ofList_cons '/' _⟩
    rw [trail, String.toList_ofList]
    exact hcut fun s hs => hfree s (List.mem_cons_of_mem _ hs)
  · rw [hlead]
    dsimp only
    rw [activeSegments_eq hstep.2 hidles hrest]
    refine ⟨_, rfl, ?_, isAbsolute_ofList_cons '.' _⟩
    have hinner : ∀ s ∈ [] :: inner, '/' ∉ s := List.forall_mem_cons.2
      ⟨List.not_mem_nil, fun s hs => hfree s (List.mem_cons_of_mem _ hs)⟩
    rw [trail, String.toList_ofList]
    refine (trailOf_point ?_).trans (hcut hinner)
    -- the segments that are left start with the empty one, and do not end in it
    obtain hnil | ⟨ss, hcons, -⟩ :=
      List.prefix_cons_iff.1 (List.rdropWhile_prefix isIdle ([] :: inner))
    · exact .inl (congrArg unsegments hnil)
    · right
      have hne : ss ≠ [] := by
        rintro rfl
        have hidle := List.rdropWhile_last_not isIdle ([] :: inner) (by rw [hcons]; simp)
        simp [hcons, isIdle] at hidle
      refine (congrArg (List.head? ∘ unsegments) hcons).trans ?_
      rw [Function.comp_apply, unsegments_cons [] hne]
      rfl
  · rw [hlead]
    dsimp only
    rw [activeSegments_eq hstep.2 hidles hsegments]
    refine ⟨_, rfl, ?_, ?_⟩
    · rw [trail, String.toList_ofList]
      exact hcut hfree
    · -- what is left starts with a name, as the path does
      rw [isAbsolute, String.toList_ofList, List.nil_append]
      refine decide_eq_decide.2 (iff_of_false ?_ (List.cons_ne_nil _ _).symm)
      rw [show (before.reverse.dropWhile isIdle).reverse = before.rdropWhile isIdle from rfl]
      have hprefix := List.rdropWhile_prefix isIdle before
      cases hleft : before.rdropWhile isIdle with
      | nil => exact (Option.some_ne_none '/').symm
      | cons s ss =>
        rw [hleft] at hprefix
        obtain ⟨tail, rfl⟩ := hprefix
        have hs : s ≠ [] := by
          rintro rfl
          exact hne rfl
        rw [head?_unsegments hs]
        exact fun hslash => hfree s List.mem_cons_self (List.mem_of_head? hslash)

end Path

/-! ## The trails of places -/

namespace FileTree

theorem IsEntryName.isStep {name : String} (h : IsEntryName name) : Path.IsStep name.toList :=
  ⟨h.2.2.2, h.segment.1⟩

theorem trail_pathOf {place : List String} (h : ∀ name ∈ place, IsEntryName name) :
    (pathOf place).trail = place.map String.toList := by
  have htext : (pathOf place).text.toList = '/' :: (Text.joinWith "/" place).toList := by
    simp [pathOf]
  rw [Path.trail, htext, Path.trailOf_slash]
  by_cases hne : place = []
  · rw [hne]
    rfl
  · rw [Path.trailOf, Path.segments_joinWith hne fun name hname => (h name hname).2.2.2]
    exact List.filter_eq_self.2 (List.forall_mem_map.2 fun name hname => by
      rw [(h name hname).segment.1]
      rfl)

theorem isAbsolute_pathOf (place : List String) : (pathOf place).isAbsolute = true := by
  simp [pathOf, Path.isAbsolute]

end FileTree

end ScriptToShell
