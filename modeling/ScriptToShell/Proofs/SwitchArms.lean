import ScriptToShell.Proofs.BlockStructure

/-!
# The arms of a switch

A `switch` tries its cases in the order of the source and runs on from the
one it selects; a `case` command tries its arms and runs just one. Between
the two stand **groups** of cases (`CaseGroup`): cases without statements,
and the case whose statements they run into. Each group becomes one arm, and
these are all the arms there are (`Stmt.switch_layout`).

Arms keep the order of the source with one exception: the group of the
default comes last, since its pattern matches everything. That is why the
two do not always select the same. A value that is tested in the group of
the default and once more behind it belongs to the former in the source and
to the latter in the script (`CaseGroup.Overtaken`). This apart, what an arm
runs is what the switch runs (`Stmt.switch_selects`).
-/

namespace ScriptToShell

open Emission Emit Shell
open Text (joinWith)

/-! ## Groups of cases -/

/-- **A group of cases**: cases without statements, and the case whose arm
they share. -/
structure CaseGroup where
  /-- The cases that share the arm. -/
  shared : List SwitchCase
  /-- The case that the arm is made for. -/
  last : SwitchCase
  /-- Cases that share an arm have no statements. -/
  shared_empty : ∀ c ∈ shared, c.consequent = []

/-- Whether a case is the default. -/
def SwitchCase.isDefault (c : SwitchCase) : Bool := c.test.isNone

namespace CaseGroup

/-- The cases of a group in the order of the source. -/
def cases (g : CaseGroup) : List SwitchCase := g.shared ++ [g.last]

/-- Whether the default is among the cases of a group. -/
def hasDefault (g : CaseGroup) : Bool := g.cases.any SwitchCase.isDefault

/-- The statements that a group runs, without a `break` at their end. -/
def statements (g : CaseGroup) : List Stmt := withoutExit g.last.consequent

/-- **Cases split into groups.** A group ends with the first case that has
statements, or with the last case of all. -/
structure Splits (cases : List SwitchCase) (groups : List CaseGroup) : Prop where
  /-- Every case is in one group, and the order is kept. -/
  flatMap_eq : groups.flatMap CaseGroup.cases = cases
  /-- Only the last group may end without statements. -/
  last_ne_nil : ∀ g ∈ groups.dropLast, g.last.consequent ≠ []

theorem splits_nil : Splits [] [] := ⟨rfl, nofun⟩

/-- A group before others. -/
theorem Splits.cons {g : CaseGroup} {rest : List SwitchCase} {groups : List CaseGroup}
    (hends : g.last.consequent ≠ [] ∨ rest = []) (h : Splits rest groups) :
    Splits (g.cases ++ rest) (g :: groups) where
  flatMap_eq := by rw [List.flatMap_cons, h.flatMap_eq]
  last_ne_nil := by
    cases groups with
    | nil => exact List.forall_mem_nil _
    | cons g' groups =>
      have hrest : rest ≠ [] := by
        rw [← h.flatMap_eq]
        simp [CaseGroup.cases]
      rw [List.dropLast_cons_cons, List.forall_mem_cons]
      exact ⟨hends.resolve_right hrest, h.last_ne_nil⟩

end CaseGroup

/-! ## Arms -/

/-- **An arm of a `case`**: its labels, and the lines of its body as if they
stood at the margin. -/
structure CaseArm where
  /-- The labels. -/
  labels : List String
  /-- The lines of the body. -/
  body : List String

/-- The lines of an arm: its labels with bars between them, its body one
level deeper, and its end. -/
def CaseArm.lines (unit : Indent) (a : CaseArm) : List String :=
  indentLine unit (joinWith "|" a.labels ++ ")") :: indentLines unit (indentLines unit a.body)
    ++ [indentLine unit ";;"]

theorem CaseArm.arm_eq_lines (unit : Indent) (labels body : List String) :
    arm unit labels body = (CaseArm.mk labels body).lines unit := by
  simp [arm, CaseArm.lines, indentLines]

/-- **The arm that a group becomes.** -/
structure CaseGroup.Becomes (w : Setting) (n : Nesting) (g : CaseGroup) (a : CaseArm) : Prop where
  /-- Each case has a label. -/
  labels : g.cases.mapM (fun c => caseLabel w.options.target c.test) = .ok a.labels
  /-- The body is that of the statements. -/
  body : outcome (Stmt.emitAll w g.statements) n = .ok a.body

/-- The statements of a case are written without the `break` at their
end. -/
theorem Stmt.outcome_emitCase (w : Setting) (n : Nesting) (stmts : List Stmt) :
    outcome (emitCase w stmts) n = outcome (emitAll w (withoutExit stmts)) n := by
  induction stmts with
  | nil => rw [outcome_emitCase_nil, withoutExit, outcome_emitAll_nil]
  | cons s ss ih =>
    obtain ⟨span, rfl, rfl⟩ | hcons := lastExit_or s ss
    · rw [outcome_emitCase_exit, withoutExit, outcome_emitAll_nil]
    · rw [outcome_emitCase_cons w n hcons, withoutExit.eq_3 s ss hcons, outcome_emitAll_cons, ih]

theorem mapM_append_singleton_eq_ok {α β : Type} {f : α → Except Fault β} {as : List α} {a : α}
    {bs : List β} {b : β} (has : as.mapM f = .ok bs) (ha : f a = .ok b) :
    (as ++ [a]).mapM f = .ok (bs ++ [b]) := by
  rw [List.mapM_append, has, List.mapM_cons, ha]
  rfl

/-- **A group with its arm.** -/
abbrev ArmOfGroup := CaseGroup × CaseArm

/-- The lines of the arms of groups. -/
def linesOfArms (unit : Indent) (own : List ArmOfGroup) : List String :=
  own.flatMap fun p => p.2.lines unit

/-- What is written for arms in the order of the source: those without the
default at once, and the last one with it for later. -/
def written (unit : Indent) (own : List ArmOfGroup) : List String × Option (List String) :=
  (linesOfArms unit (own.filter (!·.1.hasDefault)),
    (own.filter (·.1.hasDefault)).getLast?.map (·.2.lines unit))

theorem written_cons (unit : Indent) (p : ArmOfGroup) (own : List ArmOfGroup) :
    written unit (p :: own)
      = if p.1.hasDefault then
          ((written unit own).1, (written unit own).2.or (some (p.2.lines unit)))
        else (p.2.lines unit ++ (written unit own).1, (written unit own).2) := by
  unfold written
  cases hdefault : p.1.hasDefault with
  | false =>
    rw [List.filter_cons_of_pos (by simp [hdefault]), List.filter_cons_of_neg (by simp [hdefault])]
    rfl
  | true =>
    rw [List.filter_cons_of_neg (by simp [hdefault]), List.filter_cons_of_pos (by simp [hdefault]),
      List.getLast?_cons]
    cases (own.filter (·.1.hasDefault)).getLast? <;> rfl

/-- **The arms of the cases from some case on.** Cases before that wait for
an arm are given, with their labels. -/
theorem SwitchCase.exists_arms {w : Setting} {n : Nesting} {waiting cases : List SwitchCase}
    (hwaiting : ∀ c ∈ waiting, c.consequent = []) (hcases : cases = [] → waiting = [])
    {labels : List String}
    (hlabels : waiting.mapM (fun c => caseLabel w.options.target c.test) = .ok labels)
    {lines : List String} {default : Option (List String)}
    (h : outcome (emitAll w labels (waiting.any isDefault) cases) n = .ok (lines, default)) :
    ∃ own : List ArmOfGroup, CaseGroup.Splits (waiting ++ cases) (own.map (·.1))
      ∧ (∀ p ∈ own, p.1.Becomes w n p.2) ∧ (lines, default) = written w.options.indent own := by
  induction cases generalizing waiting labels lines default with
  | nil =>
    obtain rfl := hcases rfl
    rw [outcome_emitAll_nil] at h
    cases h
    exact ⟨[], CaseGroup.splits_nil, List.forall_mem_nil _, rfl⟩
  | cons c rest ih =>
    obtain ⟨test, consequent, span⟩ := c
    rw [outcome_emitAll_cons] at h
    obtain ⟨label, hlabel, hrest⟩ := bind_eq_ok_iff.1 h
    clear h
    have hlabels' := mapM_append_singleton_eq_ok
      (a := SwitchCase.mk test consequent span) hlabels hlabel
    have hflag : (waiting.any isDefault || test.isNone)
        = (waiting ++ [SwitchCase.mk test consequent span]).any isDefault := by
      simp [isDefault, SwitchCase.test]
    rw [hflag] at hrest
    split at hrest
    · -- the case waits for the arm of the next one
      rename_i hshared
      obtain ⟨rfl, hne⟩ : consequent = [] ∧ rest ≠ [] := by simpa using hshared
      have hwaiting' : ∀ c ∈ waiting ++ [SwitchCase.mk test [] span], c.consequent = [] :=
        List.forall_mem_append.2 ⟨hwaiting, List.forall_mem_singleton.2 rfl⟩
      obtain ⟨own, hsplits, hown⟩ := ih hwaiting' (fun hnil => absurd hnil hne) hlabels' hrest
      rw [List.append_assoc] at hsplits
      exact ⟨own, hsplits, hown⟩
    · rename_i hown
      split at hrest
      · cases hrest
      · obtain ⟨body, hbody, hrest⟩ := bind_eq_ok_iff.1 hrest
        obtain ⟨⟨lines', default'⟩, hothers, hpure⟩ := bind_eq_ok_iff.1 hrest
        obtain ⟨own, hsplits, hbecomes, hwritten⟩ :=
          ih (List.forall_mem_nil _) (fun _ => rfl) rfl hothers
        rw [Stmt.outcome_emitCase] at hbody
        let g : CaseGroup := ⟨waiting, .mk test consequent span, hwaiting⟩
        have hends : g.last.consequent ≠ [] ∨ rest = [] := by
          by_cases hnil : consequent = []
          · right
            simpa [hnil] using hown
          · exact .inl hnil
        have hcons := hsplits.cons hends
        rw [show g.cases = waiting ++ [SwitchCase.mk test consequent span] from rfl,
          List.append_assoc] at hcons
        refine ⟨(g, ⟨labels ++ [label], body⟩) :: own, hcons,
          List.forall_mem_cons.2 ⟨⟨hlabels', hbody⟩, hbecomes⟩, ?_⟩
        rw [written_cons, ← hwritten, ← CaseArm.arm_eq_lines]
        exact (Except.ok.inj hpure).symm

/-! ## Layout -/

/-- **Arms in the order of the script**: those of the groups without the
default, and then those with it. -/
def defaultLast (own : List ArmOfGroup) : List ArmOfGroup :=
  own.filter (!·.1.hasDefault) ++ own.filter (·.1.hasDefault)

namespace CaseGroup

theorem Splits.tail {cases : List SwitchCase} {g : CaseGroup} {groups : List CaseGroup}
    (h : Splits cases (g :: groups)) :
    ∃ rest, cases = g.cases ++ rest ∧ Splits rest groups
      ∧ (g.last.consequent ≠ [] ∨ rest = []) := by
  refine ⟨groups.flatMap CaseGroup.cases, ?_, ⟨rfl, ?_⟩, ?_⟩
  · rw [← h.flatMap_eq, List.flatMap_cons]
  · intro g' hg'
    refine h.last_ne_nil g' ?_
    cases groups with
    | nil => cases hg'
    | cons g'' groups => exact List.mem_cons_of_mem g hg'
  · cases groups with
    | nil => exact .inr rfl
    | cons g' groups => exact .inl (h.last_ne_nil g List.mem_cons_self)

/-- A group does not end inside another one that starts where it does. -/
theorem shared_length_le {g g' : CaseGroup} {rest rest' : List SwitchCase}
    (heq : g.cases ++ rest = g'.cases ++ rest') (hends : g.last.consequent ≠ [] ∨ rest = []) :
    g'.shared.length ≤ g.shared.length := by
  refine Nat.le_of_not_lt fun hlt => ?_
  have hlast : (g.cases ++ rest)[g.shared.length]? = some g.last := by simp [CaseGroup.cases]
  rw [heq, CaseGroup.cases, List.append_assoc, List.getElem?_append_left hlt] at hlast
  have hempty := g'.shared_empty g.last (List.mem_of_getElem? hlast)
  obtain rfl := hends.resolve_left (not_not_intro hempty)
  have hlength := congrArg List.length heq
  simp only [CaseGroup.cases, List.append_nil, List.length_append, List.length_singleton] at hlength
  omega

/-- **There is one way to split cases into groups.** -/
theorem Splits.unique {cases : List SwitchCase} {groups groups' : List CaseGroup}
    (h : Splits cases groups) (h' : Splits cases groups') : groups = groups' := by
  induction groups generalizing cases groups' with
  | nil =>
    have hnil := h'.flatMap_eq.trans h.flatMap_eq.symm
    cases groups' with
    | nil => rfl
    | cons g' groups' => simp [CaseGroup.cases] at hnil
  | cons g groups ih =>
    obtain ⟨rest, rfl, hrest, hends⟩ := h.tail
    cases groups' with
    | nil => simpa [CaseGroup.cases] using h'.flatMap_eq
    | cons g' groups' =>
      obtain ⟨rest', heq, hrest', hends'⟩ := h'.tail
      have hlength :=
        Nat.le_antisymm (shared_length_le heq.symm hends') (shared_length_le heq hends)
      unfold CaseGroup.cases at heq
      rw [List.append_assoc, List.append_assoc] at heq
      obtain ⟨hshared, htail⟩ := List.append_inj heq hlength
      obtain ⟨hlast, rfl⟩ := List.cons.inj htail
      rw [ih hrest hrest']
      cases g
      cases g'
      cases hshared
      cases hlast
      rfl

/-- There are no more groups with a default than defaults. -/
theorem length_filter_hasDefault_le (groups : List CaseGroup) :
    (groups.filter hasDefault).length
      ≤ ((groups.flatMap CaseGroup.cases).filter SwitchCase.isDefault).length := by
  induction groups with
  | nil => exact Nat.le_refl 0
  | cons g groups ih =>
    rw [List.flatMap_cons, List.filter_append, List.length_append, List.filter_cons]
    split
    · rename_i hdefault
      obtain ⟨c, hc, hisDefault⟩ := List.any_eq_true.1 hdefault
      have hpos := List.length_pos_of_mem (List.mem_filter.2 ⟨hc, hisDefault⟩)
      rw [List.length_cons]
      omega
    · omega

end CaseGroup

/-- Of a list that has one element at most, the last one stands for all. -/
theorem getD_getLast?_map {α β : Type} (f : α → List β) {as : List α} (h : as.length ≤ 1) :
    (as.getLast?.map f).getD [] = as.flatMap f := by
  match as with
  | [] => rfl
  | [a] => simp
  | _ :: _ :: _ => simp at h

/-- **What a switch is written as**: the arms of its groups, with the
default last. -/
theorem Stmt.exists_arms_of_switch {w : Setting} {n : Nesting} {discriminant : Expr}
    {cases : List SwitchCase} {span : Span} {lines : List String}
    (hone : (cases.filter SwitchCase.isDefault).length ≤ 1)
    (hlines : outcome ((Stmt.switch discriminant cases span).emit w) n = .ok lines) :
    ∃ word own, discriminant.value w.options.target = .ok word
      ∧ CaseGroup.Splits cases (own.map (·.1))
      ∧ (∀ p ∈ own, p.1.Becomes w n.inSwitch p.2)
      ∧ (own.filter (·.1.hasDefault)).length ≤ 1
      ∧ lines = ("case " ++ word ++ " in")
          :: linesOfArms w.options.indent (defaultLast own) ++ ["esac"] := by
  rw [outcome_switch] at hlines
  obtain ⟨word, hword, hrest⟩ := bind_eq_ok_iff.1 hlines
  obtain ⟨⟨arms, default⟩, harms, hpure⟩ := bind_eq_ok_iff.1 hrest
  cases hpure
  obtain ⟨own, hsplits, hbecomes, hwritten⟩ :=
    SwitchCase.exists_arms (List.forall_mem_nil _) (fun _ => rfl) rfl harms
  have hfew : (own.filter (·.1.hasDefault)).length ≤ 1 := by
    have hle := CaseGroup.length_filter_hasDefault_le (own.map (·.1))
    rw [hsplits.flatMap_eq, List.filter_map, List.length_map] at hle
    exact Nat.le_trans hle hone
  refine ⟨word, own, hword, hsplits, hbecomes, hfew, ?_⟩
  obtain ⟨rfl, rfl⟩ := Prod.mk.inj hwritten
  have hlast : ((own.filter (·.1.hasDefault)).getLast?.map (·.2.lines w.options.indent)).getD []
      = linesOfArms w.options.indent (own.filter (·.1.hasDefault)) := getD_getLast?_map _ hfew
  rw [hlast]
  simp [linesOfArms, defaultLast]

/-- **Switch layout.** Between the line of the word and `esac` there is one
arm for each group of cases and nothing else. The groups are the only ones
that the cases can be split into. Those without the default come in the order
of the source and the one with it, if any, comes last. Each arm has the
labels of the cases of its group and the statements of the group without a
`break` at their end. -/
theorem Stmt.switch_layout (w : Setting) (n : Nesting) (discriminant : Expr)
    (cases : List SwitchCase) (span : Span) (lines : List String)
    (hone : (cases.filter SwitchCase.isDefault).length ≤ 1)
    (hlines : outcome ((Stmt.switch discriminant cases span).emit w) n = .ok lines) :
    ∃ word own, discriminant.value w.options.target = .ok word
      ∧ CaseGroup.Splits cases (own.map (·.1))
      ∧ (∀ groups, CaseGroup.Splits cases groups → groups = own.map (·.1))
      ∧ (∀ p ∈ own, p.1.Becomes w n.inSwitch p.2)
      ∧ (own.filter (·.1.hasDefault)).length ≤ 1
      ∧ lines = ("case " ++ word ++ " in")
          :: linesOfArms w.options.indent (defaultLast own) ++ ["esac"] := by
  obtain ⟨word, own, hword, hsplits, hown⟩ := exists_arms_of_switch hone hlines
  exact ⟨word, own, hword, hsplits, fun groups hgroups => hgroups.unique hsplits, hown⟩

/-- A case that runs a command. -/
def commandCase (test : Option String) (command : String) (after : List Stmt) : SwitchCase :=
  .mk (test.map fun text => .literal (.string text) .nowhere)
    (.expression (.call (.identifier command .nowhere) [] .nowhere) .nowhere :: after) .nowhere

/-- A case that shares the arm of the next one. -/
def sharedCase (test : Option String) : SwitchCase :=
  .mk (test.map fun text => .literal (.string text) .nowhere) [] .nowhere

/-- Cases of all sorts: the default shares an arm and is not the last case,
and the last case has no statements. -/
def mixedCases : List SwitchCase :=
  [sharedCase (some "a"), sharedCase none, commandCase (some "b") "f" [.exit .nowhere],
    commandCase (some "c") "g" [.exit .nowhere], sharedCase (some "d")]

theorem mixedCases_layout :
    (mixedCases.filter SwitchCase.isDefault).length ≤ 1
      ∧ ∃ lines, lines = ["case \"$x\" in", "  \"c\")", "    g", "  ;;", "  \"d\")", "  ;;",
          "  \"a\"|*|\"b\")", "    f", "  ;;", "esac"]
        ∧ ∃ word own, Expr.value .bash (.identifier "x" .nowhere) = .ok word
          ∧ CaseGroup.Splits mixedCases (own.map (·.1))
          ∧ (∀ groups, CaseGroup.Splits mixedCases groups → groups = own.map (·.1))
          ∧ (∀ p ∈ own, p.1.Becomes .blank (Nesting.inSwitch {}) p.2)
          ∧ (own.filter (·.1.hasDefault)).length ≤ 1
          ∧ lines = ("case " ++ word ++ " in")
              :: linesOfArms (.spaces 2) (defaultLast own) ++ ["esac"] := by
  have hone : (mixedCases.filter SwitchCase.isDefault).length ≤ 1 := by decide
  refine ⟨hone, _, rfl, ?_⟩
  exact Stmt.switch_layout .blank {} (.identifier "x" .nowhere) mixedCases .nowhere _ hone rfl

/-! ## Selection -/

namespace SwitchCase

/-- Whether the test of a case is a literal with the given text. -/
def tests (value : String) (c : SwitchCase) : Bool :=
  match c.test with
  | some (.literal l _) => l.text = value
  | _ => false

/-- A case whose test, if it has one, is a literal. -/
def HasLiteral (c : SwitchCase) : Prop := ∀ e ∈ c.test, ∃ l span, e = .literal l span

/-- The statements that cases run: those of the first case that has any. -/
def firstStatements (cases : List SwitchCase) : List Stmt :=
  ((cases.find? (!·.consequent.isEmpty)).map consequent).getD []

/-- What runs from the first case of a kind on. -/
def runFrom (p : SwitchCase → Bool) (cases : List SwitchCase) : Option (List Stmt) :=
  match cases.dropWhile (!p ·) with
  | [] => none
  | found => some (firstStatements found)

/-- **What a switch runs** for a value: it selects the first case whose test
has the text of the value, and the default if there is none. -/
def runs (value : String) (cases : List SwitchCase) : Option (List Stmt) :=
  (runFrom (tests value) cases).or (runFrom isDefault cases)

end SwitchCase

namespace CaseGroup

/-- Cases that share an arm run into the case that it is made for. -/
theorem firstStatements_eq {shared rest : List SwitchCase} {last : SwitchCase}
    (hshared : ∀ c ∈ shared, c.consequent = []) (hends : last.consequent ≠ [] ∨ rest = []) :
    SwitchCase.firstStatements (shared ++ last :: rest) = last.consequent := by
  have hskip : shared.find? (!·.consequent.isEmpty) = none :=
    List.find?_eq_none.2 fun c hc => by simp [hshared c hc]
  unfold SwitchCase.firstStatements
  rw [List.find?_append, hskip, Option.none_or, List.find?_cons]
  by_cases hlast : last.consequent = []
  · obtain rfl := hends.resolve_left (not_not_intro hlast)
    rw [hlast]
    rfl
  · rw [List.isEmpty_eq_false_iff.2 hlast]
    rfl

theorem runFrom_append {shared rest : List SwitchCase} {last : SwitchCase}
    (hshared : ∀ c ∈ shared, c.consequent = []) (hends : last.consequent ≠ [] ∨ rest = [])
    (p : SwitchCase → Bool) :
    SwitchCase.runFrom p (shared ++ last :: rest)
      = if (shared ++ [last]).any p then some last.consequent else SwitchCase.runFrom p rest := by
  induction shared with
  | nil =>
    cases hp : p last with
    | true =>
      have hfirst := firstStatements_eq (List.forall_mem_nil _) hends
      rw [List.nil_append] at hfirst
      simp [SwitchCase.runFrom, hp, hfirst]
    | false => simp [SwitchCase.runFrom, hp]
  | cons c shared ih =>
    cases hp : p c with
    | true =>
      have hfirst := firstStatements_eq hshared hends
      rw [List.cons_append] at hfirst
      simp [SwitchCase.runFrom, hp, hfirst]
    | false =>
      have hrest := ih (List.forall_mem_cons.1 hshared).2
      simp only [List.cons_append, List.any_cons, hp, Bool.false_or]
      rw [← hrest]
      simp [SwitchCase.runFrom, hp]

/-- **A switch runs the statements of a group**: of the first one that has a
case of the kind. -/
theorem Splits.runFrom_eq {cases : List SwitchCase} {groups : List CaseGroup}
    (h : Splits cases groups) (p : SwitchCase → Bool) :
    SwitchCase.runFrom p cases = (groups.find? (·.cases.any p)).map (·.last.consequent) := by
  induction groups generalizing cases with
  | nil =>
    obtain rfl := h.flatMap_eq
    rfl
  | cons g groups ih =>
    obtain ⟨rest, rfl, hrest, hends⟩ := h.tail
    rw [CaseGroup.cases, List.append_assoc, List.singleton_append,
      runFrom_append g.shared_empty hends, ih hrest, List.find?_cons]
    show (if g.cases.any p then _ else _) = _
    cases g.cases.any p <;> rfl

end CaseGroup

/-! ## Labels -/

namespace Shell

/-- **A pattern** of an arm: it matches everything, or one text. -/
inductive CasePattern where
  | anything
  | quoted (text : String)
deriving DecidableEq, Repr

namespace CasePattern

/-- Whether a pattern matches a value. -/
def accepts (value : String) : CasePattern → Bool
  | .anything => true
  | .quoted text => text = value

/-- Reads patterns with bars between them up to the parenthesis behind the
last one. Inside quotes, what has been read of the text is given. -/
def readFrom : Option (List Char) → List Char → Option (List CasePattern)
  | none, ['*', ')'] => some [.anything]
  | none, '*' :: '|' :: cs => (readFrom none cs).map (.anything :: ·)
  | none, '"' :: cs => readFrom (some []) cs
  | some before, ['"', ')'] => some [.quoted (String.ofList before)]
  | some before, '"' :: '|' :: cs => (readFrom none cs).map (.quoted (String.ofList before) :: ·)
  | some before, c :: cs => if c = '"' then none else readFrom (some (before ++ [c])) cs
  | _, _ => none

/-- **The patterns of the first line of an arm.** -/
def read? (line : String) : Option (List CasePattern) := readFrom none line.toList

theorem readFrom_quoted {cs : List Char} (h : '"' ∉ cs) (before rest : List Char) :
    readFrom (some before) (cs ++ '"' :: rest) = readFrom (some (before ++ cs)) ('"' :: rest) := by
  induction cs generalizing before with
  | nil => rw [List.append_nil, List.nil_append]
  | cons c cs ih =>
    rw [List.mem_cons, not_or] at h
    have hstep : readFrom (some before) (c :: cs ++ '"' :: rest)
        = readFrom (some (before ++ [c])) (cs ++ '"' :: rest) := by
      rw [List.cons_append, readFrom.eq_6, if_neg (Ne.symm h.1)]
      · exact fun hc => absurd hc.symm h.1
      · exact fun _ hc => absurd hc.symm h.1
    rw [hstep, ih h.2, List.append_assoc, List.singleton_append]

/-- The pattern that a case is written as. -/
def ofCase (c : SwitchCase) : CasePattern :=
  match c.test with
  | some (.literal l _) => .quoted l.text
  | _ => .anything

/-- A label is read as the pattern of its case, before a bar as well as at the
end of the line. -/
theorem readFrom_label {target : Target} {c : SwitchCase} {label : String} (hc : c.HasLiteral)
    (h : caseLabel target c.test = .ok label) :
    readFrom none (label.toList ++ [')']) = some [ofCase c]
      ∧ ∀ cs, readFrom none (label.toList ++ '|' :: cs)
        = (readFrom none cs).map (ofCase c :: ·) := by
  obtain ⟨test, consequent, span⟩ := c
  cases test with
  | none =>
    cases h
    exact ⟨rfl, fun _ => rfl⟩
  | some e =>
    obtain ⟨l, s, rfl⟩ := hc e rfl
    obtain ⟨text, htext, rfl⟩ := map_eq_ok_iff.1 h
    have hplain := (accepted_literalText l s).1 ⟨text, htext⟩
    obtain rfl : text = l.text := by
      rw [Expr.text, literalText] at htext
      split at htext
      · cases htext
      · cases htext
        rfl
    have hquote : '"' ∉ l.text.toList := fun hmem => hplain '"' hmem (by decide)
    have hlabel : ∀ cs, (Expr.embed (.literal l s) l.text).toList ++ cs
        = '"' :: (l.text.toList ++ '"' :: cs) := fun cs => by
      simp [Expr.embed, Expr.isWord, Shell.word, Quoting.ofKind, Quoting.ofKind?, Quoting.apply,
        Expr.kind]
    refine ⟨?_, fun cs => ?_⟩
    · rw [hlabel, readFrom.eq_3, readFrom_quoted hquote, List.nil_append, readFrom.eq_4,
        String.ofList_toList]
      rfl
    · rw [hlabel, readFrom.eq_3, readFrom_quoted hquote, List.nil_append, readFrom.eq_5,
        String.ofList_toList]
      rfl

/-- **The first line of an arm is read as the patterns of its cases**,
whatever their texts hold. -/
theorem read?_labels {target : Target} {cases : List SwitchCase} {labels : List String}
    (hne : cases ≠ []) (hcases : ∀ c ∈ cases, c.HasLiteral)
    (h : cases.mapM (fun c => caseLabel target c.test) = .ok labels) :
    read? (joinWith "|" labels ++ ")") = some (cases.map ofCase) := by
  induction cases generalizing labels with
  | nil => exact absurd rfl hne
  | cons c rest ih =>
    rw [List.mapM_cons] at h
    obtain ⟨label, labels', hlabel, hlabels', rfl⟩ := bind₂_eq_ok_iff.1 h
    rw [List.forall_mem_cons] at hcases
    obtain ⟨hlast, hmore⟩ := readFrom_label hcases.1 hlabel
    cases rest with
    | nil =>
      cases hlabels'
      rw [read?, String.toList_append]
      exact hlast
    | cons c' rest =>
      have htail := ih (List.cons_ne_nil c' rest) hcases.2 hlabels'
      cases labels' with
      | nil => simpa using length_of_mapM_eq_ok hlabels'
      | cons l ls =>
        have hline : (joinWith "|" (label :: l :: ls) ++ ")").toList
            = label.toList ++ '|' :: (joinWith "|" (l :: ls) ++ ")").toList := by
          simp [joinWith]
        rw [read?, hline, hmore]
        exact congrArg (Option.map _) htail

end CasePattern

end Shell

/-- Whether an arm takes a value: one of the patterns in its first line
matches. -/
def CaseArm.takes (value : String) (a : CaseArm) : Bool :=
  ((CasePattern.read? (joinWith "|" a.labels ++ ")")).getD []).any (·.accepts value)

/-- **An arm takes a value** if a case of its group tests for it, or if the
group has the default. -/
theorem CaseGroup.Becomes.takes_eq {w : Setting} {n : Nesting} {g : CaseGroup} {a : CaseArm}
    (h : g.Becomes w n a) (hliteral : ∀ c ∈ g.cases, c.HasLiteral) (value : String) :
    a.takes value = (g.hasDefault || g.cases.any (SwitchCase.tests value)) := by
  have hne : g.cases ≠ [] := by simp [CaseGroup.cases]
  have haccepts : ∀ c ∈ g.cases, (CasePattern.ofCase c).accepts value
      = (c.isDefault || c.tests value) := by
    intro c hc
    have hc := hliteral c hc
    obtain ⟨test, consequent, span⟩ := c
    cases test with
    | none => rfl
    | some e =>
      obtain ⟨l, s, rfl⟩ := hc e rfl
      rfl
  unfold CaseArm.takes CaseGroup.hasDefault
  rw [CasePattern.read?_labels hne hliteral h.labels, Option.getD_some, List.any_map,
    Bool.eq_iff_iff]
  simp only [List.any_eq_true, Bool.or_eq_true, Function.comp_apply]
  constructor
  · rintro ⟨c, hc, haccepted⟩
    rw [haccepts c hc, Bool.or_eq_true] at haccepted
    exact haccepted.imp (fun hdefault => ⟨c, hc, hdefault⟩) fun htests => ⟨c, hc, htests⟩
  · rintro (⟨c, hc, hdefault⟩ | ⟨c, hc, htests⟩)
    · exact ⟨c, hc, by rw [haccepts c hc, hdefault, Bool.true_or]⟩
    · exact ⟨c, hc, by rw [haccepts c hc, htests, Bool.or_true]⟩

/-- **What an arm has of the statements of a switch**: there is an arm exactly
if there are statements, and its body is that of the statements without a
`break` at their end. -/
def Picks (w : Setting) (n : Nesting) (a : Option CaseArm) (stmts : Option (List Stmt)) : Prop :=
  match a, stmts with
  | none, none => True
  | some a, some stmts => outcome (Stmt.emitAll w (withoutExit stmts)) n = .ok a.body
  | _, _ => False

namespace CaseGroup

/-- Whether a case of a group tests for a value. -/
def tests (value : String) (g : CaseGroup) : Bool := g.cases.any (SwitchCase.tests value)

/-- **What a switch runs is what a group runs**: the first one that tests for
the value, or else the one with the default. -/
theorem Splits.runs_eq {cases : List SwitchCase} {groups : List CaseGroup}
    (h : Splits cases groups) (value : String) :
    SwitchCase.runs value cases
      = ((groups.find? (tests value)).or (groups.find? hasDefault)).map (·.last.consequent) := by
  unfold SwitchCase.runs
  rw [h.runFrom_eq, h.runFrom_eq, Option.map_or]
  rfl

section Arms

variable {w : Setting} {n : Nesting} {own : List ArmOfGroup} {value : String}

/-- An arm has the statements of its group. -/
theorem picks_of_mem (hown : ∀ p ∈ own, p.1.Becomes w n p.2) {found : Option ArmOfGroup}
    (h : ∀ p ∈ found, p ∈ own) :
    Picks w n (found.map (·.2)) (found.map (·.1.last.consequent)) := by
  cases found with
  | none => trivial
  | some p => exact (hown p (h p rfl)).body

/-- **The arm that a script selects** for a value: the first one without the
default that tests for it, or else the one with the default. -/
theorem find?_defaultLast
    (htakes : ∀ p ∈ own, p.2.takes value = (p.1.hasDefault || p.1.tests value)) :
    (defaultLast own).find? (·.2.takes value)
      = (own.find? fun p => !p.1.hasDefault && p.1.tests value).or
          (own.find? (·.1.hasDefault)) := by
  unfold defaultLast
  rw [List.find?_append]
  congr 1
  · induction own with
    | nil => rfl
    | cons p own ih =>
      rw [List.forall_mem_cons] at htakes
      cases hdefault : p.1.hasDefault with
      | true => simp [hdefault, ih htakes.2]
      | false => simp [hdefault, htakes.1, List.find?_cons, ih htakes.2]
  · induction own with
    | nil => rfl
    | cons p own ih =>
      rw [List.forall_mem_cons] at htakes
      cases hdefault : p.1.hasDefault with
      | true => simp [hdefault, htakes.1]
      | false => simp [hdefault, ih htakes.2]

/-- **A value that another group takes from the default.** The group of the
default is the first to test for it, and a later group tests for it, too. -/
structure Overtaken (value : String) (groups before : List CaseGroup) (g : CaseGroup)
    (after : List CaseGroup) : Prop where
  /-- The group stands between others. -/
  groups_eq : groups = before ++ g :: after
  /-- The group has the default. -/
  hasDefault : g.hasDefault = true
  /-- No group before tests for the value. -/
  before_tests : ∀ g ∈ before, g.tests value = false
  /-- The group tests for the value. -/
  tests : g.tests value = true
  /-- A group behind tests for the value. -/
  after_tests : ∃ g ∈ after, g.tests value = true

/-- Behind one group with the default there is no other. -/
theorem hasDefault_eq_false {before after : List ArmOfGroup} {p : ArmOfGroup}
    (hfew : ((before ++ p :: after).filter (·.1.hasDefault)).length ≤ 1)
    (hp : p.1.hasDefault = true) : ∀ q ∈ before ++ after, q.1.hasDefault = false := by
  intro q hq
  cases hdefault : q.1.hasDefault with
  | false => rfl
  | true =>
    have hpos : 0 < ((before ++ after).filter (·.1.hasDefault)).length :=
      List.length_pos_of_mem (List.mem_filter.2 ⟨hq, hdefault⟩)
    rw [List.filter_append, List.filter_cons, if_pos hp, List.length_append, List.length_cons]
      at hfew
    rw [List.filter_append, List.length_append] at hpos
    omega

/-- Unless a value is overtaken, it does not matter that the default comes
last. -/
theorem find?_eq_of_not_overtaken (hfew : (own.filter (·.1.hasDefault)).length ≤ 1)
    (h : ¬ ∃ before g after, Overtaken value (own.map (·.1)) before g after) :
    (own.find? fun p => !p.1.hasDefault && p.1.tests value).or (own.find? (·.1.hasDefault))
      = (own.find? (·.1.tests value)).or (own.find? (·.1.hasDefault)) := by
  cases hfirst : own.find? (·.1.tests value) with
  | none =>
    rw [List.find?_eq_none] at hfirst
    rw [List.find?_eq_none.2 fun p hp => by simp [hfirst p hp]]
  | some p =>
    obtain ⟨htests, before, after, rfl, hbefore⟩ := List.find?_eq_some_iff_append.1 hfirst
    simp only [Bool.not_eq_true'] at hbefore
    cases hdefault : p.1.hasDefault with
    | false =>
      rw [List.find?_eq_some_iff_append.2
        ⟨by rw [hdefault, htests]; rfl, before, after, rfl, fun q hq => by simp [hbefore q hq]⟩,
        Option.some_or]
    | true =>
      have hothers := hasDefault_eq_false hfew hdefault
      have hafter : ∀ q ∈ after, q.1.tests value = false := by
        intro q hq
        cases hq' : q.1.tests value with
        | false => rfl
        | true =>
          refine absurd ⟨before.map (·.1), p.1, after.map (·.1), ?_⟩ h
          exact ⟨by simp, hdefault, by simpa using hbefore, htests, q.1, List.mem_map_of_mem hq,
            hq'⟩
      have hnone : (before ++ p :: after).find?
          (fun p => !p.1.hasDefault && p.1.tests value) = none := by
        rw [List.find?_eq_none, List.forall_mem_append, List.forall_mem_cons]
        exact ⟨fun q hq => by simp [hbefore q hq], by simp [hdefault],
          fun q hq => by simp [hafter q hq]⟩
      have hsome : (before ++ p :: after).find? (·.1.hasDefault) = some p :=
        List.find?_eq_some_iff_append.2 ⟨hdefault, before, after, rfl, fun q hq => by
          simp [hothers q (List.mem_append_left _ hq)]⟩
      rw [hnone, hsome]
      rfl

theorem Splits.of_append {cases : List SwitchCase} {before after : List CaseGroup}
    (h : Splits cases (before ++ after)) : Splits (after.flatMap CaseGroup.cases) after := by
  induction before generalizing cases with
  | nil =>
    obtain rfl := h.flatMap_eq
    exact h
  | cons g before ih =>
    obtain ⟨rest, -, hrest, -⟩ := h.tail
    exact ih hrest

/-- A value that is overtaken goes to the first group that tests for it behind
that of the default. -/
theorem find?_of_overtaken (hfew : (own.filter (·.1.hasDefault)).length ≤ 1)
    {before after : List CaseGroup} {g : CaseGroup}
    (h : Overtaken value (own.map (·.1)) before g after) :
    ((own.find? fun p => !p.1.hasDefault && p.1.tests value).or
        (own.find? (·.1.hasDefault))).map (·.1)
      = (after.find? (tests value)).or (after.find? CaseGroup.hasDefault) := by
  obtain ⟨ownBefore, rest, rfl, rfl, hrest⟩ := List.map_eq_append_iff.1 h.groups_eq
  obtain ⟨p, ownAfter, rfl, rfl, rfl⟩ := List.map_eq_cons_iff.1 hrest
  have hothers := hasDefault_eq_false hfew h.hasDefault
  obtain ⟨q, hq⟩ : ∃ q, ownAfter.find? (·.1.tests value) = some q := by
    obtain ⟨g, hg, htests⟩ := h.after_tests
    obtain ⟨q, hq, rfl⟩ := List.mem_map.1 hg
    exact Option.isSome_iff_exists.1 (List.find?_isSome.2 ⟨q, hq, htests⟩)
  have hafter : (ownAfter.map (·.1)).find? (tests value) = some q.1 := by
    rw [List.find?_map]
    exact congrArg (Option.map (·.1)) hq
  obtain ⟨htests, first, rest, rfl, hfirst⟩ := List.find?_eq_some_iff_append.1 hq
  have hfound : (ownBefore ++ p :: (first ++ q :: rest)).find?
      (fun p => !p.1.hasDefault && p.1.tests value) = some q := by
    refine List.find?_eq_some_iff_append.2
      ⟨?_, ownBefore ++ p :: first, rest, by simp, ?_⟩
    · rw [hothers q (by simp), htests]
      rfl
    · rw [List.forall_mem_append, List.forall_mem_cons]
      refine ⟨fun x hx => ?_, ?_, fun x hx => ?_⟩
      · simp [h.before_tests x.1 (List.mem_map_of_mem hx)]
      · simp [h.hasDefault]
      · have hx' := hfirst x hx
        rw [Bool.not_eq_true'] at hx'
        simp [hx']
  rw [hfound, hafter]
  rfl

end Arms

end CaseGroup

/-- **Switch selection.** For any value, the first arm of the script that
takes it runs what the switch runs, and no arm takes it exactly if the switch
selects no case; unless the value is overtaken, for then the arm runs what the
switch would run from the cases behind the group of the default. -/
theorem Stmt.switch_selects (w : Setting) (n : Nesting) (discriminant : Expr)
    (cases : List SwitchCase) (span : Span) (lines : List String)
    (hone : (cases.filter SwitchCase.isDefault).length ≤ 1)
    (hliteral : ∀ c ∈ cases, c.HasLiteral)
    (hlines : outcome ((Stmt.switch discriminant cases span).emit w) n = .ok lines) :
    ∃ (word : String) (arms : List CaseArm) (groups : List CaseGroup),
      discriminant.value w.options.target = .ok word
      ∧ lines = ("case " ++ word ++ " in")
          :: arms.flatMap (·.lines w.options.indent) ++ ["esac"]
      ∧ CaseGroup.Splits cases groups
      ∧ ∀ value : String,
        ((¬ ∃ before g after, CaseGroup.Overtaken value groups before g after) →
          Picks w n.inSwitch (arms.find? (·.takes value)) (SwitchCase.runs value cases))
        ∧ ∀ before g after, CaseGroup.Overtaken value groups before g after →
          Picks w n.inSwitch (arms.find? (·.takes value))
            (SwitchCase.runs value (after.flatMap CaseGroup.cases)) := by
  obtain ⟨word, own, hword, hsplits, hbecomes, hfew, rfl⟩ := exists_arms_of_switch hone hlines
  have htakes : ∀ value, ∀ p ∈ own, p.2.takes value = (p.1.hasDefault || p.1.tests value) := by
    intro value p hp
    refine (hbecomes p hp).takes_eq (fun c hc => hliteral c ?_) value
    rw [← hsplits.flatMap_eq]
    exact List.mem_flatMap.2 ⟨p.1, List.mem_map_of_mem hp, hc⟩
  refine ⟨word, (defaultLast own).map (·.2), own.map (·.1), hword, ?_, hsplits, fun value => ?_⟩
  · rw [List.flatMap_map]
    rfl
  have hmem : ∀ p ∈ (defaultLast own).find? (·.2.takes value), p ∈ own := by
    intro p hp
    rcases List.mem_append.1 (List.mem_of_find?_eq_some hp) with hp | hp
    · exact (List.mem_filter.1 hp).1
    · exact (List.mem_filter.1 hp).1
  have hpicks := CaseGroup.picks_of_mem hbecomes hmem
  have hfind := CaseGroup.find?_defaultLast (htakes value)
  rw [List.find?_map]
  refine ⟨fun hnot => ?_, fun before g after h => ?_⟩
  · have hruns : SwitchCase.runs value cases
        = ((defaultLast own).find? (·.2.takes value)).map (·.1.last.consequent) := by
      rw [hsplits.runs_eq, hfind, CaseGroup.find?_eq_of_not_overtaken hfew hnot, List.find?_map,
        List.find?_map, ← Option.map_or, Option.map_map]
      rfl
    rw [hruns]
    exact hpicks
  · rw [h.groups_eq, ← List.singleton_append, ← List.append_assoc] at hsplits
    have hruns : SwitchCase.runs value (after.flatMap CaseGroup.cases)
        = ((defaultLast own).find? (·.2.takes value)).map (·.1.last.consequent) := by
      rw [hsplits.of_append.runs_eq, hfind, ← CaseGroup.find?_of_overtaken hfew h, Option.map_map]
      rfl
    rw [hruns]
    exact hpicks

theorem mixedCases_selects :
    (mixedCases.filter SwitchCase.isDefault).length ≤ 1
      ∧ (∀ c ∈ mixedCases, c.HasLiteral)
      ∧ ∃ (word : String) (arms : List CaseArm) (groups : List CaseGroup),
        Expr.value .bash (.identifier "x" .nowhere) = .ok word
        ∧ ["case \"$x\" in", "  \"c\")", "    g", "  ;;", "  \"d\")", "  ;;",
            "  \"a\"|*|\"b\")", "    f", "  ;;", "esac"]
          = ("case " ++ word ++ " in") :: arms.flatMap (·.lines (.spaces 2)) ++ ["esac"]
        ∧ CaseGroup.Splits mixedCases groups
        ∧ ∀ value : String,
          ((¬ ∃ before g after, CaseGroup.Overtaken value groups before g after) →
            Picks .blank (Nesting.inSwitch {}) (arms.find? (·.takes value))
              (SwitchCase.runs value mixedCases))
          ∧ ∀ before g after, CaseGroup.Overtaken value groups before g after →
            Picks .blank (Nesting.inSwitch {}) (arms.find? (·.takes value))
              (SwitchCase.runs value (after.flatMap CaseGroup.cases)) := by
  have hone : (mixedCases.filter SwitchCase.isDefault).length ≤ 1 := by decide
  have hliteral : ∀ c ∈ mixedCases, c.HasLiteral := by
    simp [mixedCases, sharedCase, commandCase, SwitchCase.HasLiteral, SwitchCase.test]
  refine ⟨hone, hliteral, ?_⟩
  exact Stmt.switch_selects .blank {} (.identifier "x" .nowhere) mixedCases .nowhere _ hone
    hliteral rfl

/-- **Arms that select what the cases do**, for all values. -/
def SelectsAlike (w : Setting) (n : Nesting) (cases : List SwitchCase) (lines : List String) :
    Prop :=
  ∃ (word : String) (arms : List CaseArm),
    lines = ("case " ++ word ++ " in") :: arms.flatMap (·.lines w.options.indent) ++ ["esac"]
    ∧ ∀ value, Picks w n.inSwitch (arms.find? (·.takes value)) (SwitchCase.runs value cases)

/-- Cases with a label that shares the arm of the default and is repeated
behind it. -/
def repeatedCases : List SwitchCase :=
  [sharedCase (some "z"), commandCase none "g" [.exit .nowhere], commandCase (some "z") "h" []]

/-- The repeated label comes first in the script, so that the value no longer
runs what the switch runs for it. -/
theorem repeatedCases_select_otherwise :
    (repeatedCases.filter SwitchCase.isDefault).length ≤ 1
      ∧ (∀ c ∈ repeatedCases, c.HasLiteral)
      ∧ ∃ lines, outcome
          ((Stmt.switch (.identifier "x" .nowhere) repeatedCases .nowhere).emit .blank) {}
            = .ok lines
        ∧ ¬ SelectsAlike .blank {} repeatedCases lines := by
  refine ⟨by decide, ?_, ["case \"$x\" in", "  \"z\")", "    h", "  ;;", "  \"z\"|*)", "    g",
    "  ;;", "esac"], rfl, ?_⟩
  · simp [repeatedCases, sharedCase, commandCase, SwitchCase.HasLiteral, SwitchCase.test]
  · rintro ⟨word, arms, hlines, hpicks⟩
    cases arms with
    | nil => simp at hlines
    | cons a arms =>
      obtain ⟨-, hlines⟩ := List.cons.inj hlines
      obtain ⟨hlabels, hlines⟩ := List.cons.inj hlines
      have hfirst : joinWith "|" a.labels ++ ")" = "\"z\")" := by
        rw [indentLine, if_neg (by simp)] at hlabels
        have hline : "  " ++ "\"z\")" = "  " ++ (joinWith "|" a.labels ++ ")") := hlabels
        exact ((String.append_right_inj "  ").1 hline).symm
      have htakes : a.takes "z" = true := by
        rw [CaseArm.takes, hfirst]
        decide
      have hbody : outcome (Stmt.emitAll .blank (withoutExit [.expression
          (.call (.identifier "g" .nowhere) [] .nowhere) .nowhere, .exit .nowhere]))
          (Nesting.inSwitch {}) = .ok a.body := by
        have hz := hpicks "z"
        rw [List.find?_cons_of_pos htakes] at hz
        exact hz
      have hg : ["g"] = a.body := Except.ok.inj hbody
      rw [← hg] at hlines
      exact absurd (List.cons.inj hlines).1 (by decide)

end ScriptToShell
