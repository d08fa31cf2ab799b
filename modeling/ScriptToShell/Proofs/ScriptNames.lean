import ScriptToShell.Emit.Source
import ScriptToShell.Proofs.LineNames
import ScriptToShell.Proofs.ProgramPlaces
import ScriptToShell.Proofs.SwitchArms

/-!
# The names that a script has from its program

Names pass from a program to its script as they are: the script assigns,
binds, defines and expands the names that the program introduces and uses, and
no others. Nothing on that way asks whether a name is one for a shell, and a
program may well have others, since its names may have a dollar sign in
them, letters of any alphabet, and escapes. So the names of the script are
names for a shell exactly if those of the program are
(`scriptOfSource_names`), and a program with any other name has a script with
it (`dollarName_is_assigned`).

The one thing that is lost on the way is an arm of a `switch` with several
defaults, and with it the names in it.
-/

namespace ScriptToShell

open Emit Emission Shell
open Position (passedOnAll)
open Text (joinWith)

/-! ## Lines that hold names -/

/-- **Lines that hold names**, and no others. They hold all of them if a
condition is met. -/
structure Holds (complete : Prop) (names lines : List String) : Prop where
  /-- The lines hold no other names. -/
  only : ∀ name ∈ namesInAll lines, name ∈ names
  /-- The lines hold all the names. -/
  all : complete → ∀ name ∈ names, name ∈ namesInAll lines

section Holds

variable {complete complete' : Prop} {names names' lines lines' : List String}

theorem holds_of_namesInAll_eq (h : namesInAll lines = names) : Holds complete names lines := by
  rw [← h]
  exact ⟨fun _ hname => hname, fun _ _ hname => hname⟩

namespace Holds

theorem mono (h : Holds complete names lines) (hcomplete : complete' → complete) :
    Holds complete' names lines :=
  ⟨h.only, fun hc => h.all (hcomplete hc)⟩

theorem congr (h : Holds complete names lines) (hlines : namesInAll lines' = namesInAll lines)
    (hnames : ∀ name, name ∈ names ↔ name ∈ names') : Holds complete names' lines' := by
  refine ⟨fun name hname => (hnames name).1 (h.only name ?_), fun hc name hname => ?_⟩
  · rwa [← hlines]
  · rw [hlines]
    exact h.all hc name ((hnames name).2 hname)

theorem append (h : Holds complete names lines) (h' : Holds complete names' lines') :
    Holds complete (names ++ names') (lines ++ lines') where
  only name hname := by
    rw [namesInAll_append] at hname
    exact List.mem_append.2 ((List.mem_append.1 hname).imp (h.only name) (h'.only name))
  all hc name hname := by
    rw [namesInAll_append]
    exact List.mem_append.2 ((List.mem_append.1 hname).imp (h.all hc name) (h'.all hc name))

theorem body (h : Holds complete names lines) (unit : Indent) :
    Holds complete names (Emit.body unit lines) :=
  h.congr (namesInAll_body unit lines) fun _ => Iff.rfl

/-- A line without names behind others. -/
theorem snoc (h : Holds complete names lines) (line : String) (hline : namesIn line = []) :
    Holds complete names (lines ++ [line]) := by
  refine h.congr ?_ fun _ => Iff.rfl
  rw [namesInAll_append, namesInAll_cons, hline]
  simp

end Holds

/-- **A line holds the name that it begins with and those that it refers
to.** -/
theorem holds_line (complete : Prop) {line : String} (hcontinues : Continues line)
    (hrefers : Refers names line) (hspelled : ∀ name ∈ names, IsSpelled name) :
    Holds complete ((leading line).toList ++ names) [line] := by
  have hmem : ∀ name, name ∈ namesInAll [line] ↔ name ∈ (leading line).toList ++ names := by
    intro name
    rw [namesInAll_cons, namesInAll_nil, List.append_nil, hcontinues.mem_namesIn,
      hrefers.mem_expanded hspelled, List.mem_append, Option.mem_toList]
  exact ⟨fun name hname => (hmem name).1 hname, fun _ name hname => (hmem name).2 hname⟩

end Holds

/-! ## The lines of statements -/

theorem isSpelled_of_mem_passedOnAll {xs : List Position} (h : ∀ x ∈ xs, x.Named IsSpelled) :
    ∀ name ∈ passedOnAll xs, IsSpelled name := by
  intro name hname
  obtain ⟨x, hx, hname⟩ := List.mem_flatMap.1 hname
  exact h x hx name (x.passedOn_subset_names hname)

section Lines

variable {complete : Prop} {target : Target} {role : Role}

/-- A fixed text that a line begins with: a word other than `local`, and a
blank. -/
structure IsKeyword (text : String) : Prop where
  /-- Nothing is referred to in it. -/
  opening : isOpening text = true
  /-- It is on one line. -/
  continues : Continues text
  /-- It is a word and a blank. -/
  word : ∃ word : String, (word ≠ "" && word ≠ "local" && word.toList.all (!endsName ·)) = true
    ∧ text.toList = word.toList ++ [' ']

theorem isKeyword_echo : IsKeyword "echo " :=
  ⟨by decide, continues_of_all _ (by decide), "echo", by decide, by decide⟩

theorem isKeyword_if : IsKeyword "if " :=
  ⟨by decide, continues_of_all _ (by decide), "if", by decide, by decide⟩

theorem isKeyword_elif : IsKeyword "elif " :=
  ⟨by decide, continues_of_all _ (by decide), "elif", by decide, by decide⟩

theorem isKeyword_case : IsKeyword "case " :=
  ⟨by decide, continues_of_all _ (by decide), "case", by decide, by decide⟩

/-- A line that begins with a keyword holds what it refers to behind it. -/
theorem IsKeyword.holds {opening text : String} (h : IsKeyword opening) {names : List String}
    (hcontinues : Continues text) (hrefers : Refers names text)
    (hspelled : ∀ name ∈ names, IsSpelled name) : Holds complete names [opening ++ text] := by
  have hline := holds_line complete (h.continues.append hcontinues)
    (hrefers.behind h.opening) hspelled
  obtain ⟨word, hword, hopening⟩ := h.word
  rwa [leading_of_word word hword ⟨text.toList, by simp [hopening]⟩] at hline

theorem holds_echoLine {e : Expr} (h : ∀ x ∈ e.positions .value, x.Named IsSpelled) {line : String}
    (hline : echoLine target e = .ok line) : Holds complete e.passedOn [line] := by
  obtain ⟨v, hv, rfl⟩ := map_eq_ok_iff.1 hline
  exact isKeyword_echo.holds (Expr.phrase_value h hv).continues ((e.refers target .value h).1 v hv)
    (isSpelled_of_mem_passedOnAll h)

/-- The line of a test. -/
theorem holds_test {e : Expr} (h : ∀ x ∈ e.positions .condition, x.Named IsSpelled) {t : String}
    (ht : e.condition target = .ok t) {opening : String} (hopening : IsKeyword opening) :
    Holds complete (passedOnAll (e.positions .condition)) [opening ++ t ++ "; then"] := by
  have hcloses : Continues "; then" := continues_of_all _ (by decide)
  have hrefers := (e.refers target .condition h).2 t ht
  rw [← e.passedOnAll_condition] at hrefers
  rw [String.append_assoc]
  exact hopening.holds ((Expr.phrase_condition h ht).continues.append hcloses)
    (hrefers.before (by decide)) (isSpelled_of_mem_passedOnAll h)

/-- The first line of a `case`. -/
theorem holds_word {e : Expr} (h : ∀ x ∈ e.positions .value, x.Named IsSpelled) {word : String}
    (hword : e.value target = .ok word) :
    Holds complete e.passedOn ["case " ++ word ++ " in"] := by
  have hcloses : Continues " in" := continues_of_all _ (by decide)
  rw [String.append_assoc]
  exact isKeyword_case.holds ((Expr.phrase_value h hword).continues.append hcloses)
    (((e.refers target .value h).1 word hword).before (by decide)) (isSpelled_of_mem_passedOnAll h)

/-- The lines of a call. -/
theorem holds_call {callee : Expr} {arguments : List Expr} {span : Span}
    (h : ∀ x ∈ (Expr.call callee arguments span).positions .value, x.Named IsSpelled)
    {text : String} (htext : (Expr.call callee arguments span).text target = .ok text) :
    Holds complete (Expr.call callee arguments span).passedOn (splitText text) := by
  have hphrase := (Expr.transcribes_call h htext).phrase
  have hcondition : (Expr.call callee arguments span).condition target = .ok text := by
    rw [Expr.text] at htext
    rw [Expr.condition, htext]
  have hline := holds_line complete hphrase.continues
    (((Expr.call callee arguments span).refers target .value h).2 text hcondition)
    (isSpelled_of_mem_passedOnAll h)
  rw [hphrase.leading_command] at hline
  refine hline.congr ?_ fun _ => Iff.rfl
  rw [namesInAll_splitText hphrase.continues.noReturn]
  simp

theorem holds_declarator {d : Declarator} (h : ∀ x ∈ d.positions, x.Named IsSpelled) {line : String}
    (hline : declaratorLine target d = .ok line) :
    Holds complete (passedOnAll d.positions) [line] := by
  obtain ⟨pattern, init, span⟩ := d
  rw [Declarator.positions, List.forall_mem_cons] at h
  cases pattern with
  | unsupported kind s => cases hline
  | identifier name s =>
    have hname : IsSpelled name := h.1 name (List.mem_singleton_self name)
    have hequal : Continues (name ++ "=") :=
      (continues_of_isSpelled hname).append (continues_of_all "=" (by decide))
    have hassigned : Refers [] (name ++ "=") :=
      (refers_of_not_mem (.inl rfl) (not_mem_of_isSpelled hname (by decide))).before (by decide)
    have hlast : (name ++ "=").toList.getLast? ≠ some '"' := by simp
    cases init with
    | none =>
      cases hline
      have hempty : name ++ "=\"\"" = name ++ "=" ++ "\"\"" := by
        rw [String.append_assoc]
        rfl
      have hholds := holds_line complete
        (hequal.append (continues_of_all "\"\"" (by decide)))
        (hassigned.append (refers_of_refersToNone (t := "\"\"") (by decide)) (.inl hlast))
        (List.forall_mem_nil _)
      rw [leading_assignment hname, ← hempty] at hholds
      exact hholds
    | some init =>
      obtain ⟨v, hv, rfl⟩ := map_eq_ok_iff.1 hline
      have hholds := holds_line complete
        (hequal.append (Expr.phrase_value h.2 hv).continues)
        (hassigned.append ((init.refers target .value h.2).1 v hv) (.inl hlast))
        (isSpelled_of_mem_passedOnAll h.2)
      rw [leading_assignment hname] at hholds
      exact hholds

theorem holds_declarators {declarators : List Declarator}
    (h : ∀ d ∈ declarators, ∀ x ∈ d.positions, x.Named IsSpelled) {lines : List String}
    (hlines : declarators.mapM (declaratorLine target) = .ok lines) :
    Holds complete (passedOnAll (declarators.flatMap Declarator.positions)) lines := by
  induction declarators generalizing lines with
  | nil =>
    cases hlines
    exact holds_of_namesInAll_eq rfl
  | cons d declarators ih =>
    rw [List.forall_mem_cons] at h
    rw [List.mapM_cons] at hlines
    obtain ⟨line, rest, hline, hrest, rfl⟩ := bind₂_eq_ok_iff.1 hlines
    rw [List.flatMap_cons, Position.passedOnAll_append]
    exact (holds_declarator h.1 hline).append (ih h.2 hrest)

/-- The first line of a function. -/
theorem holds_definition {name : String} (hname : IsSpelled name) :
    Holds complete [name] [name ++ "() \x7b"] := by
  have hcommand : Refers [] name :=
    refers_of_not_mem (.inl rfl) (not_mem_of_isSpelled hname (by decide))
  have hline := holds_line complete
    ((continues_of_isSpelled hname).append (continues_of_all "() \x7b" (by decide)))
    (hcommand.before (by decide)) (List.forall_mem_nil _)
  rwa [leading_definition hname] at hline

theorem holds_bindings {function : String} {index : Nat} {params : List Pattern}
    (h : ∀ x ∈ params.map Position.pattern, x.Named IsSpelled) {lines : List String}
    (hlines : bindings function index params = .ok lines) :
    Holds complete (passedOnAll (params.map Position.pattern)) lines := by
  induction params generalizing index lines with
  | nil =>
    cases hlines
    exact holds_of_namesInAll_eq rfl
  | cons p params ih =>
    rw [List.map_cons, List.forall_mem_cons] at h
    cases p with
    | unsupported kind span => cases hlines
    | identifier name span =>
      obtain ⟨rest, hrest, hpure⟩ := bind_eq_ok_iff.1 hlines
      cases hpure
      have hname : IsSpelled name := h.1 name (List.mem_singleton_self name)
      have hdigits : ∀ c ∈ (toString index).toList, c.isDigit = true := by
        intro c hc
        rw [Nat.toString_eq_ofList_toDigits, String.toList_ofList] at hc
        exact Nat.isDigit_of_mem_toDigits (by decide) (by decide) hc
      have hindex : Continues (toString index) :=
        continues_of_not_mem (fun hmem => absurd (hdigits _ hmem) (by decide))
          fun hmem => absurd (hdigits _ hmem) (by decide)
      have hbinding := ((continues_of_all "local " (by decide)).append
        (continues_of_isSpelled hname)).append (continues_of_all "=$" (by decide))
      have hquote : '"' ∉ ("local " ++ name ++ "=$" ++ toString index).toList := by
        simp only [String.toList_append, List.mem_append, not_or]
        exact ⟨⟨⟨by decide, not_mem_of_isSpelled hname (by decide)⟩, by decide⟩,
          fun hmem => absurd (hdigits _ hmem) (by decide)⟩
      have hline := holds_line complete (hbinding.append hindex)
        (refers_of_not_mem (.inl rfl) hquote) (List.forall_mem_nil _)
      have hequal : "local " ++ name ++ "=$" ++ toString index
          = "local " ++ name ++ "=" ++ ("$" ++ toString index) := by
        rw [← String.toList_inj]
        simp
      rw [hequal, leading_binding hname, ← hequal] at hline
      exact hline.append (ih h.2 hrest)

end Lines

/-! ## Arms of a switch -/

/-- **A position that loses no arm**: a switch has one default at most. -/
def Position.SingleDefault : Position → Prop
  | .statement (.switch _ cases _) _ _ => (cases.filter SwitchCase.isDefault).length ≤ 1
  | _ => True

theorem Position.unflagged_singleDefault : Unflagged SingleDefault where
  statement {s _ _} _ h := by cases s <;> exact h
  switchCase _ h := h

/-- Positions that lose no arm. -/
def Position.Lossless (xs : List Position) : Prop := ∀ x ∈ xs, x.SingleDefault

open Position (Lossless)

namespace Stmt

variable {w : Setting} {f : Bool} {n : Nesting}

/-- **A statement whose lines hold its names**, on its own and as an
alternate. -/
def IsHeld (w : Setting) (s : Stmt) : Prop :=
  ∀ (f : Bool) (n : Nesting), s.Plain IsSpelled f →
    (∀ lines, outcome (s.emit w) n = .ok lines →
      Holds (Lossless (s.positions f)) (passedOnAll (s.positions f)) lines)
    ∧ ∀ lines, outcome (emitAlternate w (some s)) n = .ok lines →
      Holds (Lossless (s.positions f)) (passedOnAll (s.positions f)) lines

theorem isHeld_of_ne_branch {s : Stmt}
    (hs : ∀ test consequent alternate span, s ≠ .branch test consequent alternate span)
    (h : ∀ (f : Bool) (n : Nesting), s.Plain IsSpelled f → ∀ lines,
      outcome (s.emit w) n = .ok lines →
        Holds (Lossless (s.positions f)) (passedOnAll (s.positions f)) lines) :
    IsHeld w s := by
  refine fun f n hplain => ⟨h f n hplain, fun lines hlines => ?_⟩
  rw [outcome_emitAlternate_else w n hs] at hlines
  obtain ⟨body, hbody, rfl⟩ := map_eq_ok_iff.1 hlines
  have helse : namesIn "else" = [] := by decide
  refine (h f n hplain body hbody).congr ?_ fun _ => Iff.rfl
  rw [namesInAll_cons, helse, namesInAll_body]
  rfl

/-- The lines of a statement before those of others. -/
theorem holds_cons {s : Stmt} {ss : List Stmt} (hs : IsHeld w s) (hplain : s.Plain IsSpelled f)
    {tail : Except Fault (List String)}
    (htail : ∀ rest, tail = .ok rest →
      Holds (Lossless (partsAll f ss)) (passedOnAll (partsAll f ss)) rest) {lines : List String}
    (hlines : (do
      let first ← outcome (s.emit w) n
      let rest ← tail
      return first ++ rest) = .ok lines) :
    Holds (Lossless (partsAll f (s :: ss))) (passedOnAll (partsAll f (s :: ss))) lines := by
  obtain ⟨first, rest, hfirst, hrest, rfl⟩ := bind₂_eq_ok_iff.1 hlines
  have hparts : partsAll f (s :: ss) = s.positions f ++ partsAll f ss := by
    rw [partsAll]
    rfl
  rw [hparts, Position.passedOnAll_append]
  exact (((hs f n hplain).1 first hfirst).mono fun h => (List.forall_mem_append.1 h).1).append
    ((htail rest hrest).mono fun h => (List.forall_mem_append.1 h).2)

theorem holds_emitAll {stmts : List Stmt} (h : ∀ s ∈ stmts, IsHeld w s)
    (hplain : ∀ s ∈ stmts, s.Plain IsSpelled f) {lines : List String}
    (hlines : outcome (emitAll w stmts) n = .ok lines) :
    Holds (Lossless (partsAll f stmts)) (passedOnAll (partsAll f stmts)) lines := by
  induction stmts generalizing lines with
  | nil =>
    rw [outcome_emitAll_nil] at hlines
    cases hlines
    rw [partsAll]
    exact holds_of_namesInAll_eq rfl
  | cons s ss ih =>
    rw [List.forall_mem_cons] at h hplain
    rw [outcome_emitAll_cons] at hlines
    exact holds_cons h.1 hplain.1 (fun _ => ih h.2 hplain.2) hlines

/-- The value that a function returns last is printed. -/
theorem holds_emitFunction {stmts : List Stmt} (h : ∀ s ∈ stmts, IsHeld w s)
    (hplain : ∀ s ∈ stmts, s.Plain IsSpelled f) {lines : List String}
    (hlines : outcome (emitFunction w stmts) n = .ok lines) :
    Holds (Lossless (partsAll f stmts)) (passedOnAll (partsAll f stmts)) lines := by
  induction stmts generalizing lines with
  | nil =>
    rw [outcome_emitFunction_nil] at hlines
    cases hlines
    rw [partsAll]
    exact holds_of_namesInAll_eq rfl
  | cons s ss ih =>
    rw [List.forall_mem_cons] at h hplain
    obtain ⟨value, span, rfl, rfl⟩ | hcons := lastReturn_or s ss
    · rw [outcome_emitFunction_ret] at hlines
      obtain ⟨line, hline, rfl⟩ := map_eq_ok_iff.1 hlines
      have hnamed := (List.forall_mem_cons.1 hplain.1.2).2
      rw [parts] at hnamed
      have hnames : passedOnAll (partsAll f [.ret (some value) span]) = value.passedOn := by
        rw [partsAll, partsAll, parts, List.append_nil]
        rfl
      rw [hnames]
      exact holds_echoLine hnamed hline
    · rw [outcome_emitFunction_cons w n hcons] at hlines
      exact holds_cons h.1 hplain.1 (fun _ => ih h.2 hplain.2) hlines

end Stmt

/-! ## Switches -/

/-- The names that a case passes on. -/
def SwitchCase.passedOn (f : Bool) (c : SwitchCase) : List String :=
  passedOnAll (Expr.positions? c.test) ++ passedOnAll (Stmt.partsAll f c.consequent)

section Cases

variable {f : Bool}

/-- Whether a statement ends a case does not matter to its names. -/
theorem Stmt.passedOnAll_caseParts (stmts : List Stmt) :
    passedOnAll (caseParts f stmts) = passedOnAll (partsAll f stmts) := by
  induction stmts with
  | nil => rw [caseParts, partsAll]
  | cons s ss ih =>
    rw [caseParts, partsAll, Position.passedOnAll_append, Position.passedOnAll_append, ih,
      Position.passedOnAll_cons, Position.passedOnAll_cons]
    cases s <;> rfl

theorem SwitchCase.passedOnAll_partsAll (cases : List SwitchCase) :
    passedOnAll (partsAll f cases) = cases.flatMap (passedOn f) := by
  induction cases with
  | nil =>
    rw [partsAll]
    rfl
  | cons c rest ih =>
    obtain ⟨test, consequent, span⟩ := c
    rw [partsAll, Position.passedOnAll_append, Position.passedOnAll_append,
      Position.passedOnAll_cons, ih, Stmt.passedOnAll_caseParts]
    rfl

theorem SwitchCase.lossless_partsAll {cases : List SwitchCase} (h : Lossless (partsAll f cases)) :
    ∀ c ∈ cases, Lossless (Stmt.partsAll f c.consequent) := fun c hc =>
  Stmt.forall_partsAll.2
    ((SwitchCase.forall_partsAll Position.unflagged_singleDefault).1 h c hc).2.2

theorem mem_of_mem_withoutExit {stmts : List Stmt} {s : Stmt} (h : s ∈ withoutExit stmts) :
    s ∈ stmts := by
  induction stmts with
  | nil => exact h
  | cons s' ss ih =>
    unfold withoutExit at h
    split at h
    · cases h
    · cases h
    · rename_i heq
      cases heq
      rcases List.mem_cons.1 h with rfl | hmem
      · exact List.mem_cons_self
      · exact List.mem_cons_of_mem s' (ih hmem)

theorem lossless_withoutExit {stmts : List Stmt} (h : Lossless (Stmt.partsAll f stmts)) :
    Lossless (Stmt.partsAll f (withoutExit stmts)) :=
  Stmt.forall_partsAll.2 fun s hs => Stmt.forall_partsAll.1 h s (mem_of_mem_withoutExit hs)

/-- A `break` has no names. -/
theorem passedOnAll_withoutExit (stmts : List Stmt) :
    passedOnAll (Stmt.partsAll f (withoutExit stmts)) = passedOnAll (Stmt.partsAll f stmts) := by
  induction stmts with
  | nil => rw [withoutExit]
  | cons s ss ih =>
    obtain ⟨span, rfl, rfl⟩ | hcons := Stmt.lastExit_or s ss
    · rw [withoutExit, Stmt.partsAll, Stmt.partsAll, Stmt.partsAll, Stmt.parts]
      rfl
    · rw [withoutExit.eq_3 s ss hcons, Stmt.partsAll,
        Stmt.partsAll, Position.passedOnAll_append, Position.passedOnAll_append, ih]

theorem continues_joinWith {separator : String} (hseparator : Continues separator)
    {texts : List String} (h : ∀ text ∈ texts, Continues text) :
    Continues (joinWith separator texts) := by
  induction texts with
  | nil => exact continues_of_all "" (by decide)
  | cons t ts ih =>
    rw [List.forall_mem_cons] at h
    cases ts with
    | nil => exact h.1
    | cons u us => exact (h.1.append hseparator).append (ih h.2)

/-- The line of labels of an arm. -/
theorem holds_labels (complete : Prop) {target : Target} {cases : List SwitchCase}
    (hne : cases ≠ []) (h : ∀ c ∈ cases, ∀ x ∈ Expr.positions? c.test, x.Named IsSpelled)
    {labels : List String}
    (hlabels : cases.mapM (fun c => caseLabel target c.test) = .ok labels) :
    Holds complete (cases.flatMap fun c => passedOnAll (Expr.positions? c.test))
      [joinWith "|" labels ++ ")"] := by
  have hcases : ∀ label ∈ labels, label = "*" ∨ Phrase IsSpelled .value label :=
    forall_of_mapM_eq_ok hlabels fun c hc label hlabel => caseLabel_cases (h c hc) hlabel
  have hcontinues : ∀ label ∈ labels, Continues label := by
    intro label hlabel
    rcases hcases label hlabel with rfl | hphrase
    · exact continues_of_all "*" (by decide)
    · exact hphrase.continues
  have hlabel : ∀ c ∈ cases, ∀ label, caseLabel target c.test = .ok label →
      Refers (passedOnAll (Expr.positions? c.test)) label := by
    intro c hc label hlabel
    have hnamed := h c hc
    cases htest : c.test with
    | none =>
      rw [htest] at hlabel
      cases hlabel
      exact refers_of_refersToNone (t := "*") (by decide)
    | some e =>
      rw [htest] at hlabel hnamed
      exact (e.refers target .value hnamed).1 label hlabel
  have hrefers := refers_joinWith (g := id) "|" (by decide) hlabels hlabel
  rw [List.map_id] at hrefers
  have hspelled : ∀ name ∈ cases.flatMap fun c => passedOnAll (Expr.positions? c.test),
      IsSpelled name := List.forall_mem_flatMap.2 fun c hc => isSpelled_of_mem_passedOnAll (h c hc)
  have hlength := length_of_mapM_eq_ok hlabels
  have hlabelled : labels ≠ [] := by
    rintro rfl
    exact hne (List.eq_nil_of_length_eq_zero hlength.symm)
  have hline := holds_line complete
    ((continues_joinWith (continues_of_all "|" (by decide)) hcontinues).append
      (continues_of_all ")" (by decide))) (hrefers.before (by decide)) hspelled
  rwa [leading_labels hlabelled hcases] at hline

/-- **The lines of an arm hold the names of its group.** -/
theorem CaseGroup.Becomes.holds {w : Setting} {n : Nesting} {g : CaseGroup} {a : CaseArm}
    (hbecomes : g.Becomes w n a) (h : ∀ c ∈ g.cases, ∀ s ∈ c.consequent, s.IsHeld w)
    (hplain : ∀ c ∈ g.cases, (∀ x ∈ Expr.positions? c.test, x.Named IsSpelled)
      ∧ ∀ s ∈ c.consequent, s.Plain IsSpelled f) (unit : Indent) :
    Holds (∀ c ∈ g.cases, Lossless (Stmt.partsAll f c.consequent))
      (g.cases.flatMap (SwitchCase.passedOn f)) (a.lines unit) := by
  have hlast : g.last ∈ g.cases := List.mem_append_right g.shared (List.mem_singleton_self g.last)
  have hlabels := holds_labels (∀ c ∈ g.cases, Lossless (Stmt.partsAll f c.consequent))
    (List.ne_nil_of_mem hlast) (fun c hc => (hplain c hc).1) hbecomes.labels
  have hbody := Stmt.holds_emitAll
    (fun s hs => h g.last hlast s (mem_of_mem_withoutExit hs))
    (fun s hs => (hplain g.last hlast).2 s (mem_of_mem_withoutExit hs)) hbecomes.body
  rw [passedOnAll_withoutExit] at hbody
  have hlossless : (∀ c ∈ g.cases, Lossless (Stmt.partsAll f c.consequent)) →
      Lossless (Stmt.partsAll f (withoutExit g.last.consequent)) := fun hall =>
    lossless_withoutExit (hall g.last hlast)
  refine (hlabels.append (hbody.mono hlossless)).congr ?_ fun name => ?_
  · have hend : namesIn ";;" = [] := by decide
    simp [CaseArm.lines, hend]
  · -- the cases that share the arm have no statements
    have hshared : g.shared.flatMap (SwitchCase.passedOn f)
        = g.shared.flatMap fun c => passedOnAll (Expr.positions? c.test) := by
      refine List.flatMap_congr fun c hc => ?_
      rw [SwitchCase.passedOn, g.shared_empty c hc, Stmt.partsAll]
      exact List.append_nil _
    rw [CaseGroup.cases, List.flatMap_append, List.flatMap_append, hshared]
    simp [SwitchCase.passedOn]

/-- **The arms of a switch hold the names of its cases**, all of them if there
is one default at most. -/
theorem holds_written {complete : Prop} {unit : Indent} {own : List ArmOfGroup}
    (h : ∀ p ∈ own, Holds complete (p.1.cases.flatMap (SwitchCase.passedOn f)) (p.2.lines unit))
    (hfew : complete → (own.filter (·.1.hasDefault)).length ≤ 1) :
    Holds complete (((own.map (·.1)).flatMap CaseGroup.cases).flatMap (SwitchCase.passedOn f))
      ((written unit own).1 ++ (written unit own).2.getD []) := by
  have hmem : ∀ name, name ∈ ((own.map (·.1)).flatMap CaseGroup.cases).flatMap
      (SwitchCase.passedOn f) ↔ ∃ p ∈ own, name ∈ p.1.cases.flatMap (SwitchCase.passedOn f) := by
    intro name
    rw [List.flatMap_assoc, List.flatMap_map, List.mem_flatMap]
  refine ⟨fun name hname => (hmem name).2 ?_, fun hc name hname => ?_⟩
  · obtain ⟨line, hline, hname⟩ := List.mem_flatMap.1 hname
    obtain ⟨p, hp, hline⟩ : ∃ p ∈ own, line ∈ p.2.lines unit := by
      rcases List.mem_append.1 hline with hline | hline
      · obtain ⟨p, hp, hline⟩ := List.mem_flatMap.1 hline
        exact ⟨p, List.mem_of_mem_filter hp, hline⟩
      · cases hlast : (own.filter (·.1.hasDefault)).getLast? with
        | none =>
          rw [written, hlast] at hline
          cases hline
        | some p =>
          rw [written, hlast] at hline
          exact ⟨p, List.mem_of_mem_filter (List.mem_of_getLast? hlast), hline⟩
    exact ⟨p, hp, (h p hp).only name (List.mem_flatMap.2 ⟨line, hline, hname⟩)⟩
  · obtain ⟨p, hp, hname⟩ := (hmem name).1 hname
    have hheld := (h p hp).all hc name hname
    have hlast : (written unit own).2.getD [] = linesOfArms unit (own.filter (·.1.hasDefault)) :=
      getD_getLast?_map _ (hfew hc)
    have hlines (own' : List ArmOfGroup) (hp : p ∈ own') :
        name ∈ namesInAll (linesOfArms unit own') := by
      rw [namesInAll, linesOfArms, List.flatMap_assoc]
      exact List.mem_flatMap.2 ⟨p, hp, hheld⟩
    rw [namesInAll_append, hlast, List.mem_append]
    cases hdefault : p.1.hasDefault with
    | false => exact .inl (hlines _ (List.mem_filter.2 ⟨hp, by simp [hdefault]⟩))
    | true => exact .inr (hlines _ (List.mem_filter.2 ⟨hp, hdefault⟩))

end Cases

/-! ## Statements -/

namespace Stmt

theorem namesInAll_framed (outermost : Bool) (lines : List String) :
    namesInAll (framed outermost lines) = namesInAll lines := by
  have hempty : namesIn "" = [] := by decide
  cases outermost <;> simp [framed, hempty]

/-- **Every plain statement is held by its lines.** -/
theorem isHeld (w : Setting) (s : Stmt) : IsHeld w s := by
  induction s using Stmt.induction_on with
  | block body span ih =>
    refine isHeld_of_ne_branch (by simp) fun f n hplain lines hlines => ?_
    rw [outcome_block] at hlines
    have hholds := holds_emitAll ih hplain.block hlines
    rw [positions, parts, Position.passedOnAll_cons]
    exact hholds.mono fun h => (List.forall_mem_cons.1 h).2
  | empty span =>
    refine isHeld_of_ne_branch (by simp) fun f n _ lines hlines => ?_
    rw [outcome_empty] at hlines
    cases hlines
    rw [positions, parts]
    exact holds_of_namesInAll_eq rfl
  | expression value span =>
    refine isHeld_of_ne_branch (by simp) fun f n hplain lines hlines => ?_
    have hnamed := (List.forall_mem_cons.1 hplain.2).2
    rw [parts] at hnamed
    rw [outcome_expression] at hlines
    rw [positions, parts, Position.passedOnAll_cons]
    cases value with
    | call callee arguments s =>
      obtain ⟨text, htext, rfl⟩ := map_eq_ok_iff.1 hlines
      exact holds_call hnamed htext
    | unsupported kind s => cases hlines
    | _ => cases hlines
  | branch test consequent alternate span ihc iha =>
    -- the rest of the chain is the same whether the branch opens it or not
    have hrest : ∀ (f : Bool) (n : Nesting), (∀ s ∈ alternate, s.Plain IsSpelled f) →
        ∀ lines, outcome (emitAlternate w alternate) n = .ok lines →
        Holds (Lossless (alternateParts f alternate)) (passedOnAll (alternateParts f alternate))
          lines := by
      intro f n hplain lines hlines
      cases alternate with
      | none =>
        rw [outcome_emitAlternate_none] at hlines
        cases hlines
        rw [alternateParts]
        exact holds_of_namesInAll_eq rfl
      | some s =>
        rw [alternateParts]
        exact (iha s rfl f n (hplain s rfl)).2 lines hlines
    refine fun f n hplain => ?_
    obtain ⟨htest, hconsequent, halternate⟩ := hplain.branch
    have hpositions : (branch test consequent alternate span).positions f
        = .statement (branch test consequent alternate span) f false
          :: ((test.positions .condition ++ consequent.positions f)
            ++ alternateParts f alternate) := by
      rw [positions, parts]
      rfl
    have hlossless : Lossless ((branch test consequent alternate span).positions f) →
        Lossless (consequent.positions f) ∧ Lossless (alternateParts f alternate) := by
      intro h
      rw [hpositions, Lossless, List.forall_mem_cons, List.forall_mem_append,
        List.forall_mem_append] at h
      exact ⟨h.2.1.2, h.2.2⟩
    have hchain : ∀ (n : Nesting) (opening t : String) (lines others : List String),
        IsKeyword opening → test.condition w.options.target = .ok t →
        outcome (consequent.emit w) n = .ok lines →
        outcome (emitAlternate w alternate) n = .ok others →
        Holds (Lossless ((branch test consequent alternate span).positions f))
          (passedOnAll ((branch test consequent alternate span).positions f))
          ((opening ++ t ++ "; then") :: body w.options.indent lines ++ others) := by
      intro n opening t lines others hopening ht hlines hothers
      have hbody := ((ihc f n hconsequent).1 lines hlines).body w.options.indent
      have hall := ((holds_test htest ht hopening).append
        (hbody.mono fun h => (hlossless h).1)).append
        ((hrest f n halternate others hothers).mono fun h => (hlossless h).2)
      rw [hpositions, Position.passedOnAll_cons, Position.passedOnAll_append,
        Position.passedOnAll_append]
      rw [hpositions] at hall
      exact hall
    refine ⟨fun lines hlines => ?_, fun lines hlines => ?_⟩
    · rw [outcome_branch] at hlines
      obtain ⟨t, body, others, ht, hbody, hothers, rfl⟩ := bind₃_eq_ok_iff.1 hlines
      have hend : namesIn "fi" = [] := by decide
      exact ((hchain n.inIf "if " t body others isKeyword_if ht hbody hothers).snoc "fi" hend).congr
        (namesInAll_framed _ _) fun _ => Iff.rfl
    · rw [outcome_emitAlternate_branch] at hlines
      obtain ⟨t, body, others, ht, hbody, hothers, rfl⟩ := bind₃_eq_ok_iff.1 hlines
      exact hchain n "elif " t body others isKeyword_elif ht hbody hothers
  | function name params body span ih =>
    refine isHeld_of_ne_branch (by simp) fun f n hplain lines hlines => ?_
    obtain ⟨hname, hparams, hbody⟩ := hplain.function
    rw [outcome_function] at hlines
    obtain ⟨locals, rest, hlocals, hrest, rfl⟩ := bind₂_eq_ok_iff.1 hlines
    have hpositions : (function name params body span).positions f
        = .statement (function name params body span) f false
          :: (params.map .pattern ++ partsAll true body) := by rw [positions, parts]
    have hlossless : Lossless ((function name params body span).positions f) →
        Lossless (partsAll true body) := fun h => by
      rw [hpositions] at h
      exact (List.forall_mem_append.1 (List.forall_mem_cons.1 h).2).2
    have hinner := (holds_emitFunction ih hbody hrest).mono hlossless
    have hlines := ((holds_bindings hparams hlocals).append hinner).body w.options.indent
    have hends := (hlines.snoc "\x7d" (by decide)).snoc "" (by decide)
    have hall := (holds_definition hname).append hends
    rw [hpositions, Position.passedOnAll_cons, Position.passedOnAll_append]
    rw [hpositions] at hall
    refine hall.congr ?_ fun _ => Iff.rfl
    simp
  | ret argument span =>
    refine isHeld_of_ne_branch (by simp) fun f n hplain lines hlines => ?_
    have hnamed := (List.forall_mem_cons.1 hplain.2).2
    rw [parts] at hnamed
    rw [outcome_ret] at hlines
    rw [positions, parts, Position.passedOnAll_cons]
    split at hlines
    · cases hlines
    · cases argument with
      | none =>
        cases hlines
        exact holds_of_namesInAll_eq (show namesInAll ["return"] = [] by decide)
      | some value =>
        obtain ⟨line, hline, rfl⟩ := map_eq_ok_iff.1 hlines
        exact (holds_echoLine hnamed hline).snoc "return" (by decide)
  | declaration kind declarators span =>
    refine isHeld_of_ne_branch (by simp) fun f n hplain lines hlines => ?_
    have hnamed := (List.forall_mem_cons.1 hplain.2).2
    rw [parts, List.forall_mem_flatMap] at hnamed
    rw [outcome_declaration] at hlines
    rw [positions, parts, Position.passedOnAll_cons]
    exact holds_declarators hnamed hlines
  | switch discriminant cases span ih =>
    refine isHeld_of_ne_branch (by simp) fun f n hplain lines hlines => ?_
    obtain ⟨hdiscriminant, hcases⟩ := hplain.switch
    rw [outcome_switch] at hlines
    obtain ⟨word, hword, hbind⟩ := bind_eq_ok_iff.1 hlines
    obtain ⟨⟨arms, default⟩, harms, hpure⟩ := bind_eq_ok_iff.1 hbind
    cases hpure
    obtain ⟨own, hsplits, hbecomes, hwritten⟩ :=
      SwitchCase.exists_arms (List.forall_mem_nil _) (fun _ => rfl) rfl harms
    have hpositions : (switch discriminant cases span).positions f
        = .statement (switch discriminant cases span) f false
          :: (discriminant.positions .value ++ SwitchCase.partsAll f cases) := by
      rw [positions, parts]
    have hlossless : Lossless ((switch discriminant cases span).positions f) →
        (cases.filter SwitchCase.isDefault).length ≤ 1
          ∧ ∀ c ∈ cases, Lossless (partsAll f c.consequent) := by
      intro h
      rw [hpositions, Lossless, List.forall_mem_cons, List.forall_mem_append] at h
      exact ⟨h.1, SwitchCase.lossless_partsAll h.2.2⟩
    have hmem : ∀ p ∈ own, ∀ c ∈ p.1.cases, c ∈ cases := fun p hp c hc => by
      have hgroups : c ∈ (own.map (·.1)).flatMap CaseGroup.cases :=
        List.mem_flatMap.2 ⟨p.1, List.mem_map_of_mem hp, hc⟩
      rwa [hsplits.flatMap_eq] at hgroups
    have hgroups : ∀ p ∈ own, Holds (Lossless ((switch discriminant cases span).positions f))
        (p.1.cases.flatMap (SwitchCase.passedOn f)) (p.2.lines w.options.indent) := fun p hp =>
      ((hbecomes p hp).holds (fun c hc => ih c (hmem p hp c hc))
        (fun c hc => hcases c (hmem p hp c hc)) w.options.indent).mono
          fun h c hc => (hlossless h).2 c (hmem p hp c hc)
    have hfew : Lossless ((switch discriminant cases span).positions f) →
        (own.filter (·.1.hasDefault)).length ≤ 1 := fun h => by
      have hle := CaseGroup.length_filter_hasDefault_le (own.map (·.1))
      rw [hsplits.flatMap_eq, List.filter_map, List.length_map] at hle
      exact Nat.le_trans hle (hlossless h).1
    have harmed := holds_written hgroups hfew
    rw [hsplits.flatMap_eq, ← hwritten] at harmed
    have hend : namesIn "esac" = [] := by decide
    have hall := ((holds_word hdiscriminant hword).append harmed).snoc "esac" hend
    rw [hpositions, Position.passedOnAll_cons, Position.passedOnAll_append,
      SwitchCase.passedOnAll_partsAll]
    rw [hpositions] at hall
    refine hall.congr ?_ fun _ => Iff.rfl
    simp
  | importModule source span =>
    refine isHeld_of_ne_branch (by simp) fun f n hplain => ?_
    have himports := hplain.1
    rw [imports] at himports
    cases himports
  | exit span =>
    refine isHeld_of_ne_branch (by simp) fun f n _ lines hlines => ?_
    rw [outcome_exit] at hlines
    cases hlines
  | unsupported kind span =>
    refine isHeld_of_ne_branch (by simp) fun f n _ lines hlines => ?_
    rw [outcome_unsupported] at hlines
    cases hlines

end Stmt

/-! ## Programs -/

/-- **The names that a program passes on to its script.** -/
def Program.passedOn (p : Program) : List String := passedOnAll p.positions

theorem Stmt.holds_chunks {w : Setting} {n : Nesting} {stmts : List Stmt}
    (hplain : ∀ s ∈ stmts, s.Plain IsSpelled false) {chunks : List String}
    (hchunks : outcome (Stmt.chunks w stmts) n = .ok chunks) :
    Holds (Lossless (partsAll false stmts)) (passedOnAll (partsAll false stmts)) chunks := by
  induction stmts generalizing chunks with
  | nil =>
    rw [outcome_chunks_nil] at hchunks
    cases hchunks
    rw [partsAll]
    exact holds_of_namesInAll_eq rfl
  | cons s ss ih =>
    rw [List.forall_mem_cons] at hplain
    rw [outcome_chunks_cons] at hchunks
    obtain ⟨lines, rest, hlines, hrest, rfl⟩ := bind₂_eq_ok_iff.1 hchunks
    have htail : ∀ rest', (.ok rest : Except Fault (List String)) = .ok rest' →
        Holds (Lossless (partsAll false ss)) (passedOnAll (partsAll false ss)) rest' := by
      rintro _ ⟨⟩
      exact ih hplain.2 hrest
    have hboth : (do
        let first ← outcome (s.emit w) n
        let others ← (.ok rest : Except Fault (List String))
        return first ++ others) = .ok (lines ++ rest) := by
      rw [hlines]
      rfl
    refine (holds_cons (isHeld w s) hplain.1 htail hboth).congr ?_ fun _ => Iff.rfl
    rw [namesInAll_cons, namesIn_joinWith, namesInAll_append]

/-- **Names are passed on as they are.** Every name that the script of a source
text assigns, binds, defines or expands is one that the program introduces
or uses. So if those are names for a shell, the names in the script are; and
where no arm of a switch is lost, the script has all the names of the program
and its names are names for a shell only if those of the program are. -/
theorem scriptOfSource_names (w : Setting) (source script : String) (program : Program)
    (hparse : Program.parse source = .ok program) (himports : program.imports = [])
    (hscript : scriptOfSource w source = .ok script) :
    (∀ name ∈ namesIn script, name ∈ program.passedOn)
      ∧ ((∀ name ∈ program.passedOn, isName name = true) →
          ∀ name ∈ namesIn script, isName name = true)
      ∧ (Lossless program.positions →
          (∀ name ∈ program.passedOn, name ∈ namesIn script)
            ∧ ((∀ name ∈ namesIn script, isName name = true) →
              ∀ name ∈ program.passedOn, isName name = true)) := by
  have hspelled := Program.isSpelled_of_parse hparse
  have hplain : ∀ s ∈ program.body, s.Plain IsSpelled false := fun s hs =>
    ⟨Stmt.importsAll_eq_nil.1 himports s hs, hspelled s hs false⟩
  obtain ⟨program', hparse', hrun⟩ := bind_eq_ok_iff.1 hscript
  cases hparse.symm.trans hparse'
  obtain ⟨chunks, hchunks, rfl⟩ := map_eq_ok_iff.1 hrun
  obtain ⟨honly, hall⟩ := Stmt.holds_chunks (n := {}) hplain hchunks
  rw [namesIn_script]
  exact ⟨honly, fun hnames name hname => hnames name (honly name hname),
    fun hlossless => ⟨hall hlossless,
      fun hnames name hname => hnames name (hall hlossless name hname)⟩⟩

/-- A text in which names are introduced and used in several ways. -/
def namefulText : String := "function f(a){return a+b}let x=f(1);if(x){g(y)}"

theorem namefulText_names : ∃ program script,
    Program.parse namefulText = .ok program ∧ program.imports = []
      ∧ scriptOfSource .blank namefulText = .ok script
      ∧ program.passedOn = ["f", "a", "a", "b", "x", "x", "y"]
      ∧ ∀ name ∈ namesIn script, isName name = true := by
  have hparse : (Program.parse namefulText).toOption.map (fun p => (p.imports, p.passedOn))
      = some ([], ["f", "a", "a", "b", "x", "x", "y"]) := by decide +kernel
  have hscript : (scriptOfSource .blank namefulText).toOption.isSome = true := by decide +kernel
  obtain ⟨program, hprogram, hparts⟩ := Program.exists_of_parse hparse
  obtain ⟨himports, hnames⟩ := Prod.mk.inj hparts
  cases hs : scriptOfSource .blank namefulText with
  | error fault =>
    rw [hs] at hscript
    cases hscript
  | ok script =>
    refine ⟨program, script, hprogram, himports, rfl, hnames, ?_⟩
    refine (scriptOfSource_names .blank namefulText script program hprogram himports hs).2.1 ?_
    rw [hnames]
    decide

/-- A text whose one name is none for a shell. -/
def dollarText : String := "let $x=1;"

/-- **A name that is none for a shell is assigned all the same.** -/
theorem dollarName_is_assigned : ∃ program script,
    Program.parse dollarText = .ok program ∧ program.imports = []
      ∧ scriptOfSource .blank dollarText = .ok script
      ∧ "$x" ∈ namesIn script ∧ isName "$x" = false := by
  have hparse : (Program.parse dollarText).toOption.map (·.imports) = some [] := by decide +kernel
  have hscript : (scriptOfSource .blank dollarText).toOption
      = some "#!/usr/bin/env bash\n\n$x=\"1\"\n" := by decide +kernel
  obtain ⟨program, hprogram, himports⟩ := Program.exists_of_parse hparse
  cases hs : scriptOfSource .blank dollarText with
  | error fault =>
    rw [hs] at hscript
    cases hscript
  | ok script =>
    rw [hs] at hscript
    cases hscript
    exact ⟨program, _, hprogram, himports, rfl, by decide +kernel, by decide⟩

end ScriptToShell
