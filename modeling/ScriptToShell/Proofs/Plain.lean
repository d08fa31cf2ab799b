import ScriptToShell.Proofs.Line
import ScriptToShell.Tree.Imports

/-!
# Plain statements

Most of what is known of generated lines is known of statements that do
not import anything and whose names are names to a shell. Such statements are
**plain**, and so is every statement inside a plain one. The lines that a
plain statement has of its own – a call, a binding, a value that is
returned – are command lines.
-/

namespace ScriptToShell

open Emit Shell

/-! ## Positions of a statement -/

/-- **A property that does not ask where a case or a switch ends.** -/
structure Position.Unflagged (P : Position → Prop) : Prop where
  /-- A statement may end its case or not. -/
  statement : ∀ {s f e} e', P (.statement s f e) → P (.statement s f e')
  /-- A case may be the last one or not. -/
  switchCase : ∀ {c l} l', P (.switchCase c l) → P (.switchCase c l')

theorem Position.unflagged_named (ok : String → Prop) : Unflagged (Named ok) where
  statement {s _ _} _ h := by cases s <;> exact h
  switchCase _ h := h

section Positions

variable {P : Position → Prop} {f : Bool}

theorem Expr.forall_positions? {e : Option Expr} :
    (∀ x ∈ Expr.positions? e, P x) ↔ ∀ e' ∈ e, ∀ x ∈ e'.positions .value, P x := by
  cases e with
  | none => exact iff_of_true (by simp [positions?]) (by simp)
  | some e => exact ⟨fun h e' he' => by cases he'; exact h, fun h => h e rfl⟩

namespace Stmt

theorem forall_partsAll {stmts : List Stmt} :
    (∀ x ∈ partsAll f stmts, P x) ↔ ∀ s ∈ stmts, ∀ x ∈ s.positions f, P x := by
  induction stmts with
  | nil => exact iff_of_true (by simp [partsAll]) (List.forall_mem_nil _)
  | cons s ss ih =>
    rw [partsAll, List.forall_mem_append, ih]
    exact (List.forall_mem_cons (p := fun s : Stmt => ∀ x ∈ s.positions f, P x)).symm

theorem forall_caseParts (hP : Position.Unflagged P) {stmts : List Stmt} :
    (∀ x ∈ caseParts f stmts, P x) ↔ ∀ s ∈ stmts, ∀ x ∈ s.positions f, P x := by
  induction stmts with
  | nil => exact iff_of_true (by simp [caseParts]) (List.forall_mem_nil _)
  | cons s ss ih =>
    have hown : P (.statement s f ss.isEmpty) ↔ P (.statement s f false) :=
      ⟨hP.statement false, hP.statement ss.isEmpty⟩
    rw [caseParts, List.forall_mem_append, ih, List.forall_mem_cons, hown, ← List.forall_mem_cons]
    exact (List.forall_mem_cons (p := fun s : Stmt => ∀ x ∈ s.positions f, P x)).symm

theorem forall_alternateParts {alternate : Option Stmt} :
    (∀ x ∈ alternateParts f alternate, P x) ↔ ∀ s ∈ alternate, ∀ x ∈ s.positions f, P x := by
  cases alternate with
  | none => exact iff_of_true (by simp [alternateParts]) (by simp)
  | some s =>
    rw [alternateParts]
    exact ⟨fun h s' hs' => by cases hs'; exact h, fun h => h s rfl⟩

end Stmt

theorem SwitchCase.forall_partsAll (hP : Position.Unflagged P) {cases : List SwitchCase} :
    (∀ x ∈ partsAll f cases, P x)
      ↔ ∀ c ∈ cases, P (.switchCase c false) ∧ (∀ x ∈ Expr.positions? c.test, P x)
        ∧ ∀ s ∈ c.consequent, ∀ x ∈ s.positions f, P x := by
  induction cases with
  | nil => exact iff_of_true (by simp [partsAll]) (List.forall_mem_nil _)
  | cons c rest ih =>
    obtain ⟨test, consequent, span⟩ := c
    have hown : P (.switchCase (.mk test consequent span) rest.isEmpty)
        ↔ P (.switchCase (.mk test consequent span) false) :=
      ⟨hP.switchCase false, hP.switchCase rest.isEmpty⟩
    rw [partsAll, List.forall_mem_append, List.forall_mem_append, List.forall_mem_cons, ih,
      Stmt.forall_caseParts hP, hown, List.forall_mem_cons]
    exact and_congr_left' and_assoc

namespace Stmt

variable {span : Span}

theorem forall_mem_positions_block {body : List Stmt} :
    (∀ x ∈ (block body span).positions f, P x)
      ↔ P (.statement (block body span) f false) ∧ ∀ s ∈ body, ∀ x ∈ s.positions f, P x := by
  rw [positions, parts, List.forall_mem_cons, forall_partsAll]

theorem forall_mem_positions_branch {test : Expr} {consequent : Stmt} {alternate : Option Stmt} :
    (∀ x ∈ (branch test consequent alternate span).positions f, P x)
      ↔ P (.statement (branch test consequent alternate span) f false)
        ∧ (∀ x ∈ test.positions .condition, P x) ∧ (∀ x ∈ consequent.positions f, P x)
        ∧ ∀ s ∈ alternate, ∀ x ∈ s.positions f, P x := by
  rw [positions, parts, List.forall_mem_cons, List.forall_mem_append, List.forall_mem_append,
    forall_alternateParts, and_assoc]
  rfl

theorem forall_mem_positions_function {name : String} {params : List Pattern} {body : List Stmt} :
    (∀ x ∈ (function name params body span).positions f, P x)
      ↔ P (.statement (function name params body span) f false)
        ∧ (∀ x ∈ params.map Position.pattern, P x) ∧ ∀ s ∈ body, ∀ x ∈ s.positions true, P x := by
  rw [positions, parts, List.forall_mem_cons, List.forall_mem_append, forall_partsAll]

theorem forall_mem_positions_switch (hP : Position.Unflagged P) {discriminant : Expr}
    {cases : List SwitchCase} :
    (∀ x ∈ (switch discriminant cases span).positions f, P x)
      ↔ P (.statement (switch discriminant cases span) f false)
        ∧ (∀ x ∈ discriminant.positions .value, P x)
        ∧ ∀ c ∈ cases, P (.switchCase c false) ∧ (∀ x ∈ Expr.positions? c.test, P x)
          ∧ ∀ s ∈ c.consequent, ∀ x ∈ s.positions f, P x := by
  rw [positions, parts, List.forall_mem_cons, List.forall_mem_append,
    SwitchCase.forall_partsAll hP]

end Stmt

end Positions

/-! ## Plain statements -/

/-- **A plain statement**: nothing is imported in it, and its names are of
a kind. -/
def Stmt.Plain (ok : String → Prop) (inFunction : Bool) (s : Stmt) : Prop :=
  s.imports = [] ∧ ∀ x ∈ s.positions inFunction, x.Named ok

theorem Stmt.importsAll_eq_nil {stmts : List Stmt} :
    Stmt.importsAll stmts = [] ↔ ∀ s ∈ stmts, s.imports = [] := by
  induction stmts with
  | nil => exact iff_of_true (by rw [importsAll]) (List.forall_mem_nil _)
  | cons s ss ih => rw [importsAll, List.append_eq_nil_iff, ih, List.forall_mem_cons]

theorem SwitchCase.importsAll_eq_nil {cases : List SwitchCase} :
    SwitchCase.importsAll cases = [] ↔ ∀ c ∈ cases, ∀ s ∈ c.consequent, s.imports = [] := by
  induction cases with
  | nil => exact iff_of_true (by rw [importsAll]) (List.forall_mem_nil _)
  | cons c rest ih =>
    obtain ⟨test, consequent, span⟩ := c
    rw [importsAll, imports, List.append_eq_nil_iff, Stmt.importsAll_eq_nil, ih,
      List.forall_mem_cons]
    rfl

namespace Stmt

variable {ok : String → Prop} {f : Bool}

theorem plain_all {stmts : List Stmt} :
    (∀ s ∈ stmts, s.Plain ok f)
      ↔ importsAll stmts = [] ∧ ∀ x ∈ partsAll f stmts, x.Named ok := by
  rw [importsAll_eq_nil, forall_partsAll]
  exact ⟨fun h => ⟨fun s hs => (h s hs).1, fun s hs => (h s hs).2⟩,
    fun h s hs => ⟨h.1 s hs, h.2 s hs⟩⟩

theorem Plain.block {body : List Stmt} {span : Span} (h : (block body span).Plain ok f) :
    ∀ s ∈ body, s.Plain ok f := by
  obtain ⟨himports, hnamed⟩ := h
  rw [imports, importsAll_eq_nil] at himports
  exact fun s hs => ⟨himports s hs, (forall_mem_positions_block.1 hnamed).2 s hs⟩

theorem Plain.branch {test : Expr} {consequent : Stmt} {alternate : Option Stmt} {span : Span}
    (h : (branch test consequent alternate span).Plain ok f) :
    (∀ x ∈ test.positions .condition, x.Named ok) ∧ consequent.Plain ok f
      ∧ ∀ s ∈ alternate, s.Plain ok f := by
  obtain ⟨himports, hnamed⟩ := h
  obtain ⟨-, htest, hconsequent, halternate⟩ := forall_mem_positions_branch.1 hnamed
  cases alternate with
  | none =>
    rw [imports] at himports
    exact ⟨htest, ⟨himports, hconsequent⟩, by simp⟩
  | some s =>
    rw [imports, List.append_eq_nil_iff] at himports
    refine ⟨htest, ⟨himports.1, hconsequent⟩, fun s' hs' => ?_⟩
    cases hs'
    exact ⟨himports.2, halternate s rfl⟩

theorem Plain.function {name : String} {params : List Pattern} {body : List Stmt} {span : Span}
    (h : (function name params body span).Plain ok f) :
    ok name ∧ (∀ x ∈ params.map Position.pattern, x.Named ok) ∧ ∀ s ∈ body, s.Plain ok true := by
  obtain ⟨himports, hnamed⟩ := h
  obtain ⟨hown, hparams, hbody⟩ := forall_mem_positions_function.1 hnamed
  rw [imports, importsAll_eq_nil] at himports
  exact ⟨hown name (List.mem_singleton_self name), hparams,
    fun s hs => ⟨himports s hs, hbody s hs⟩⟩

theorem Plain.switch {discriminant : Expr} {cases : List SwitchCase} {span : Span}
    (h : (switch discriminant cases span).Plain ok f) :
    (∀ x ∈ discriminant.positions .value, x.Named ok)
      ∧ ∀ c ∈ cases, (∀ x ∈ Expr.positions? c.test, x.Named ok)
        ∧ ∀ s ∈ c.consequent, s.Plain ok f := by
  obtain ⟨himports, hnamed⟩ := h
  obtain ⟨-, hdiscriminant, hcases⟩ :=
    (forall_mem_positions_switch (Position.unflagged_named ok)).1 hnamed
  rw [imports, SwitchCase.importsAll_eq_nil] at himports
  refine ⟨hdiscriminant, fun c hc => ⟨(hcases c hc).2.1, fun s hs => ?_⟩⟩
  exact ⟨himports c hc s hs, (hcases c hc).2.2 s hs⟩

end Stmt

/-! ## Command lines -/

section Lines

variable {ok : String → Prop} {target : Target} {f : Bool}

theorem isCommandLine_echo (hok : ∀ name, ok name → isName name = true) {value : Expr}
    {role : Role} (h : ∀ x ∈ value.positions role, x.Named ok) {line : String}
    (hline : echoLine target value = .ok line) : IsCommandLine ok line := by
  obtain ⟨v, hv, rfl⟩ := map_eq_ok_iff.1 hline
  have hneat := (Expr.phrase_value h hv).neat hok
  refine ⟨Neat.append (settled_of_all "echo " (by decide)) hneat, "echo", .inr (by decide), ?_⟩
  exact ⟨' ' :: v.toList, by rw [String.toList_append]; rfl, by simp⟩

theorem isCommandLine_return : IsCommandLine ok "return" :=
  ⟨neat_of_all "return" (by decide) (by decide), "return", .inr (by decide), beginsWith_self _⟩

theorem isCommandLine_assignment (hok : ∀ name, ok name → isName name = true) {name : String}
    (hname : ok name) {value : String} (hvalue : Neat value) :
    IsCommandLine ok (name ++ "=" ++ value) := by
  refine ⟨?_, name, .inl hname, ?_⟩
  · exact Neat.between (neat_of_isName (hok name hname)).settled
      (settled_of_all "=" (by decide)) hvalue
  · rw [String.append_assoc]
    exact beginsWith_append (c := '=') (by simp) (.inr rfl)

theorem isCommandLine_declarator (hok : ∀ name, ok name → isName name = true) {d : Declarator}
    (h : ∀ x ∈ d.positions, x.Named ok) {line : String}
    (hline : declaratorLine target d = .ok line) : IsCommandLine ok line := by
  obtain ⟨pattern, init, span⟩ := d
  rw [Declarator.positions, List.forall_mem_cons] at h
  cases pattern with
  | unsupported kind s => cases hline
  | identifier name s =>
    have hname : ok name := h.1 name (List.mem_singleton_self name)
    cases init with
    | none =>
      cases hline
      have hempty : name ++ "=\"\"" = name ++ "=" ++ "\"\"" := by
        rw [String.append_assoc]
        rfl
      rw [hempty]
      exact isCommandLine_assignment hok hname (neat_of_all _ (by decide) (by decide))
    | some init =>
      obtain ⟨v, hv, rfl⟩ := map_eq_ok_iff.1 hline
      exact isCommandLine_assignment hok hname ((Expr.phrase_value h.2 hv).neat hok)

/-- The names that parameters bind. -/
def parameterNames (params : List Pattern) : List String :=
  params.filterMap fun
    | .identifier name _ => some name
    | .unsupported _ _ => none

/-- The lines that bind parameters, each to the argument at its place. -/
def parameterLines (params : List Pattern) : List String :=
  (parameterNames params).mapIdx fun i name => "local " ++ name ++ "=$" ++ toString (i + 1)

/-- **The bindings of parameters** are numbered in their order. -/
theorem bindings_eq {function : String} {index : Nat} {params : List Pattern} {lines : List String}
    (h : bindings function index params = .ok lines) :
    lines = (parameterNames params).mapIdx fun i name =>
      "local " ++ name ++ "=$" ++ toString (i + index) := by
  induction params generalizing index lines with
  | nil =>
    cases h
    rfl
  | cons p params ih =>
    cases p with
    | unsupported kind span => cases h
    | identifier name span =>
      obtain ⟨rest, hrest, hpure⟩ := bind_eq_ok_iff.1 h
      cases hpure
      rw [ih hrest]
      show _ = List.mapIdx _ (name :: parameterNames params)
      rw [List.mapIdx_cons, Nat.zero_add]
      refine congrArg _ (congrArg (List.mapIdx · _) ?_)
      funext i name
      rw [Nat.add_right_comm]
      rfl

theorem isCommandLine_parameter (hok : ∀ name, ok name → isName name = true)
    {params : List Pattern} (h : ∀ x ∈ params.map Position.pattern, x.Named ok) :
    ∀ line ∈ parameterLines params, IsCommandLine ok line := by
  intro line hline
  obtain ⟨i, hi, rfl⟩ := List.mem_mapIdx.1 hline
  have hname : ok (parameterNames params)[i] := by
    obtain ⟨p, hp, hpname⟩ := List.mem_filterMap.1 (List.getElem_mem hi)
    cases p with
    | unsupported kind span => cases hpname
    | identifier name span =>
      cases hpname
      exact h _ (List.mem_map_of_mem hp) _ (List.mem_singleton_self _)
  have hsettled := settled_append (settled_append (settled_of_all "local " (by decide))
    (neat_of_isName (hok _ hname)).settled) (settled_of_all "=$" (by decide))
  refine ⟨Neat.append hsettled (neat_toString _), "local", .inr (by decide), ?_⟩
  exact ⟨' ' :: ((parameterNames params)[i] ++ "=$" ++ toString (i + 1)).toList, by simp, by simp⟩

theorem caseLabel_cases {test : Option Expr} (h : ∀ x ∈ Expr.positions? test, x.Named ok)
    {label : String} (hlabel : caseLabel target test = .ok label) :
    label = "*" ∨ Phrase ok .value label := by
  cases test with
  | none =>
    cases hlabel
    exact .inl rfl
  | some e => exact .inr (Expr.phrase_value h hlabel)

end Lines

end ScriptToShell
