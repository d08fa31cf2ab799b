import ScriptToShell.Proofs.Emission
import ScriptToShell.Proofs.Expression

/-!
# The programs that have a script

Whether a program has a script is decided node by node. Each node of a
program has a **position**: the node itself, together with the little
its surroundings say about it – whether a statement stands in a function
or ends a case, and in which role an expression is used. `positions`
walks through a program without checking anything, and `Allowed` checks
one position without looking further. A program has a script exactly if
all its positions are allowed (`Program.chunks_ok_iff`).

So nothing is passed over: had the emission of some construct forgotten
to look at one of its parts, a construct without a shell counterpart
could hide there, and the right-hand side would be false where the
left-hand side is true.

One role matters twice. As a condition, a literal is folded to `true` or
`false` and its text does not reach the script; in every other role the
text is put between double quotes as it is and must not hold a character
that a shell interprets there.
-/

namespace ScriptToShell

open Emit

/-! ## Positions -/

/-- **What an expression is used for** where it stands. -/
inductive Role where
  /-- Its value is part of a command. -/
  | value
  /-- Its truth decides: the test of an `if`, or an operand of a logical
  operator or a negation. -/
  | condition
  /-- It is called. -/
  | callee
  /-- A property of it is accessed. -/
  | object
deriving DecidableEq, Repr, Inhabited

/-- **A position of a program.** -/
inductive Position where
  /-- A statement, whether it is inside a function, and whether it is the
  last of the statements directly in a case. -/
  | statement (s : Stmt) (inFunction endsCase : Bool)
  /-- A case of a `switch`, and whether it is the last one. -/
  | switchCase (c : SwitchCase) (isLast : Bool)
  /-- An expression and its role. -/
  | expression (e : Expr) (role : Role)
  /-- What a declaration or a parameter binds. -/
  | pattern (p : Pattern)

mutual

/-- The positions below an expression. -/
def Expr.parts : Expr → List Position
  | .binary _ left right _ =>
    .expression left .value :: left.parts ++ .expression right .value :: right.parts
  | .logical _ left right _ =>
    .expression left .condition :: left.parts ++ .expression right .condition :: right.parts
  | .not argument _ => .expression argument .condition :: argument.parts
  | .call callee arguments _ =>
    .expression callee .callee :: callee.parts ++ Expr.partsAll arguments
  | .member object _ _ => .expression object .object :: object.parts
  | .identifier .. | .literal .. | .metaProperty .. | .unsupported .. => []

/-- The positions of a list of values. -/
def Expr.partsAll : List Expr → List Position
  | [] => []
  | e :: es => .expression e .value :: e.parts ++ Expr.partsAll es

end

/-- **The positions of an expression** in a role. -/
def Expr.positions (e : Expr) (role : Role) : List Position := .expression e role :: e.parts

/-- The positions of a value that may be missing. -/
def Expr.positions? (e : Option Expr) : List Position := (e.map (·.positions .value)).getD []

/-- The positions of a binding. -/
def Declarator.positions (d : Declarator) : List Position :=
  .pattern d.target :: Expr.positions? d.init

mutual

/-- The positions below a statement. -/
def Stmt.parts (inFunction : Bool) : Stmt → List Position
  | .block body _ => Stmt.partsAll inFunction body
  | .expression value _ => value.positions .value
  | .branch test consequent alternate _ =>
    test.positions .condition ++ .statement consequent inFunction false
      :: consequent.parts inFunction ++ Stmt.alternateParts inFunction alternate
  | .function _ params body _ => params.map .pattern ++ Stmt.partsAll true body
  | .ret argument _ => Expr.positions? argument
  | .declaration _ declarators _ => declarators.flatMap Declarator.positions
  | .switch discriminant cases _ =>
    discriminant.positions .value ++ SwitchCase.partsAll inFunction cases
  | .empty _ | .importModule .. | .exit _ | .unsupported .. => []

/-- The positions of a list of statements. -/
def Stmt.partsAll (inFunction : Bool) : List Stmt → List Position
  | [] => []
  | s :: ss =>
    .statement s inFunction false :: s.parts inFunction ++ Stmt.partsAll inFunction ss

/-- The positions of an alternate. -/
def Stmt.alternateParts (inFunction : Bool) : Option Stmt → List Position
  | none => []
  | some s => .statement s inFunction false :: s.parts inFunction

/-- The positions of the statements of a case. -/
def Stmt.caseParts (inFunction : Bool) : List Stmt → List Position
  | [] => []
  | s :: ss =>
    .statement s inFunction ss.isEmpty :: s.parts inFunction ++ Stmt.caseParts inFunction ss

/-- The positions of the cases of a `switch`. -/
def SwitchCase.partsAll (inFunction : Bool) : List SwitchCase → List Position
  | [] => []
  | .mk test consequent span :: rest =>
    .switchCase (.mk test consequent span) rest.isEmpty :: Expr.positions? test
      ++ Stmt.caseParts inFunction consequent ++ SwitchCase.partsAll inFunction rest

end

/-- **The positions of a statement** that ends no case. -/
def Stmt.positions (inFunction : Bool) (s : Stmt) : List Position :=
  .statement s inFunction false :: s.parts inFunction

/-- **The positions of a program.** -/
def Program.positions (p : Program) : List Position := Stmt.partsAll false p.body

/-! ## What is allowed -/

/-- An outcome without a fault. -/
def Accepted {α : Type} (x : Except Fault α) : Prop := ∃ a, x = .ok a

/-- The operators that compare. -/
def comparisonOperators : List BinaryOp :=
  [.equal, .strictEqual, .notEqual, .strictNotEqual, .less, .lessEqual, .greater, .greaterEqual]

/-- The operators an arithmetic expansion has in both shells. -/
def arithmeticOperators : List BinaryOp :=
  [.add, .sub, .mul, .div, .mod, .shiftLeft, .shiftRight, .bitAnd, .bitOr, .bitXor]

/-- The characters that have no verbatim form between double quotes. -/
def activeCharacters : List Char := ['"', '$', '\x60', '\\', '\n', '\r']

/-- **A position that does not keep a program from having a script.** -/
def Position.Allowed (w : Setting) : Position → Prop
  -- the one statement a shell runs as it is, is a call
  | .statement (.expression value _) _ _ =>
    ∃ callee arguments span, value = .call callee arguments span
  | .statement (.ret _ _) inFunction _ => inFunction = true
  | .statement (.exit _) _ endsCase => endsCase = true
  | .statement (.importModule source _) _ _ => Accepted (w.modules source)
  | .statement (.unsupported _ _) _ _ => False
  | .statement _ _ _ => True
  | .switchCase c isLast =>
    c.consequent = [] ∨ isLast = true
      ∨ ∃ s, c.consequent.getLast? = some s
        ∧ ((∃ span, s = .exit span) ∨ ∃ argument span, s = .ret argument span)
  | .expression e .callee =>
    (∃ name span, e = .identifier name span)
      ∨ ∃ s property span, e = .member (.identifier "console" s) property span
        ∧ property ∈ ["log", "error", "warn"]
  | .expression (.member object property _) _ =>
    (∃ span, object = .metaProperty "import" "meta" span) ∧ property ∈ ["dirname", "filename"]
  | .expression (.metaProperty _ _ _) role => role = .object
  | .expression (.binary op _ _ _) _ =>
    op ∈ comparisonOperators ∨ op ∈ arithmeticOperators ∨ op = .exp ∧ w.options.target = .bash
  -- only a literal that is folded may hold any text
  | .expression (.literal value _) role =>
    role = .condition ∨ ∀ c ∈ value.text.toList, c ∉ activeCharacters
  | .expression (.unsupported _ _) _ => False
  | .expression _ _ => True
  | .pattern (.unsupported _ _) => False
  | .pattern (.identifier _ _) => True

/-! ## Outcomes without a fault -/

section Accepted

variable {α β : Type}

@[simp] theorem accepted_ok (a : α) : Accepted (.ok a) := ⟨a, rfl⟩

@[simp] theorem not_accepted_error (fault : Fault) : ¬ Accepted (.error fault : Except Fault α) :=
  nofun

@[simp] theorem accepted_map (f : α → β) (x : Except Fault α) :
    Accepted (x.map f) ↔ Accepted x := by
  cases x with
  | ok a => exact iff_of_true (accepted_ok (f a)) (accepted_ok a)
  | error fault => exact iff_of_false (not_accepted_error fault) (not_accepted_error fault)

/-- **A sequence is accepted if both parts are.** Whether the second one
is may not depend on what the first one yields. -/
theorem accepted_bind {x : Except Fault α} {f : α → Except Fault β} {P : Prop}
    (h : ∀ a, Accepted (f a) ↔ P) : Accepted (x >>= f) ↔ Accepted x ∧ P := by
  cases x with
  | ok a => exact (h a).trans (iff_and_self.2 fun _ => accepted_ok a)
  | error fault =>
    exact iff_of_false (not_accepted_error fault) fun hx => not_accepted_error fault hx.1

/-- What cannot fail at the end does not count. -/
theorem accepted_bind_of_ok {x : Except Fault α} {f : α → Except Fault β}
    (h : ∀ a, Accepted (f a)) : Accepted (x >>= f) ↔ Accepted x :=
  (accepted_bind fun a => iff_of_true (h a) trivial).trans (and_iff_left trivial)

@[simp] theorem accepted_bind_pure (f : α → β) (x : Except Fault α) :
    Accepted (x >>= fun a => pure (f a)) ↔ Accepted x :=
  accepted_bind_of_ok fun a => accepted_ok (f a)

theorem accepted_mapM (f : α → Except Fault β) (as : List α) :
    Accepted (as.mapM f) ↔ ∀ a ∈ as, Accepted (f a) := by
  induction as with
  | nil => exact iff_of_true (accepted_ok []) nofun
  | cons a as ih =>
    rw [List.mapM_cons, List.forall_mem_cons]
    refine accepted_bind fun b => ?_
    rw [accepted_bind_pure, ih]

end Accepted

/-! ## Expressions -/

theorem accepted_testOperator (op : BinaryOp) (span : Span) :
    Accepted (testOperator op span) ↔ op ∈ comparisonOperators := by
  cases op <;> simp [testOperator, comparisonOperators]

theorem accepted_arithmeticOperator (op : BinaryOp) (target : Target) (span : Span) :
    Accepted (arithmeticOperator op target span)
      ↔ op ∈ arithmeticOperators ∨ op = .exp ∧ target = .bash := by
  cases op <;> cases target <;> simp [arithmeticOperator, arithmeticOperators]

theorem accepted_comparison (op : BinaryOp) (span : Span) (left right : Except Fault String) :
    Accepted (comparison op span left right)
      ↔ op ∈ comparisonOperators ∧ Accepted left ∧ Accepted right := by
  rw [comparison, accepted_bind fun _ => accepted_bind fun _ => accepted_bind_pure _ _,
    accepted_testOperator]

theorem accepted_arithmetic (target : Target) (op : BinaryOp) (span : Span)
    (left right : Except Fault String) :
    Accepted (arithmetic target op span left right)
      ↔ (op ∈ arithmeticOperators ∨ op = .exp ∧ target = .bash)
        ∧ Accepted left ∧ Accepted right := by
  rw [arithmetic, accepted_bind fun _ => accepted_bind fun _ => accepted_bind_pure _ _,
    accepted_arithmeticOperator]

theorem isComparison_iff (op : BinaryOp) : op.isComparison = true ↔ op ∈ comparisonOperators := by
  cases op <;> simp [BinaryOp.isComparison, comparisonOperators]

/-- **Every operator that is not a comparison is tried as arithmetic**, so
that of two operands is accepted if it is one of either kind. -/
theorem accepted_operation {target : Target} {op : BinaryOp} {span : Span}
    {left right test number : Except Fault String}
    (htest : Accepted test ↔ Accepted (comparison op span left right))
    (hnumber : Accepted number ↔ Accepted (arithmetic target op span left right)) :
    Accepted (if op.isComparison then test else number)
      ↔ (op ∈ comparisonOperators ∨ op ∈ arithmeticOperators ∨ op = .exp ∧ target = .bash)
        ∧ Accepted left ∧ Accepted right := by
  by_cases hop : op ∈ comparisonOperators
  · rw [if_pos ((isComparison_iff op).2 hop), htest, accepted_comparison]
    exact and_congr_left' (iff_of_true hop (.inl hop))
  · rw [if_neg (mt (isComparison_iff op).1 hop), hnumber, accepted_arithmetic]
    exact and_congr_left' (or_iff_right hop).symm

theorem isActive_iff (c : Char) : isActive c = true ↔ c ∈ activeCharacters := by
  simp [isActive, activeCharacters, or_assoc]

theorem accepted_literalText (value : Literal) (span : Span) :
    Accepted (literalText value span) ↔ ∀ c ∈ value.text.toList, c ∉ activeCharacters := by
  unfold literalText
  split
  · rename_i c hfind
    refine iff_of_false (not_accepted_error _) fun hall => ?_
    exact hall c (List.mem_of_find?_eq_some hfind) ((isActive_iff c).1 (List.find?_some hfind))
  · rename_i hfind
    refine iff_of_true (accepted_ok _) fun c hc hactive => ?_
    exact List.find?_eq_none.1 hfind c hc ((isActive_iff c).2 hactive)

/-- The text of a literal is taken over as it is. -/
theorem literalText_eq {value : Literal} (span : Span)
    (h : ∀ c ∈ value.text.toList, c ∉ activeCharacters) :
    literalText value span = .ok value.text := by
  obtain ⟨text, htext⟩ := (accepted_literalText value span).2 h
  have htext' := htext
  unfold literalText at htext'
  split at htext'
  · cases htext'
  · cases htext'
    exact htext

theorem accepted_memberText (object : Expr) (property : String) (span : Span) :
    Accepted (memberText object property span)
      ↔ (∃ s, object = .metaProperty "import" "meta" s)
        ∧ property ∈ ["dirname", "filename"] := by
  unfold memberText
  split
  · rename_i owner own s
    by_cases hmeta : owner = "import" ∧ own = "meta"
    · obtain ⟨rfl, rfl⟩ := hmeta
      by_cases hdir : property = "dirname" <;> by_cases hfile : property = "filename" <;>
        simp [hdir, hfile]
    · simp only [hmeta, if_false, not_accepted_error, false_iff]
      rintro ⟨⟨_, hobject⟩, -⟩
      cases hobject
      exact hmeta ⟨rfl, rfl⟩
  · rename_i hobject
    refine iff_of_false (not_accepted_error _) ?_
    rintro ⟨⟨s, rfl⟩, -⟩
    exact hobject _ _ _ rfl

/-- The methods that print are those of `console`. -/
theorem redirection?_isSome (object : Expr) (property : String) :
    (redirection? object property).isSome = true
      ↔ (∃ s, object = .identifier "console" s) ∧ property ∈ ["log", "error", "warn"] := by
  unfold redirection?
  split
  · rename_i name s
    by_cases hname : name = "console"
    · by_cases hlog : property = "log" <;> by_cases herror : property = "error" <;>
        by_cases hwarn : property = "warn" <;> simp [hname, hlog, herror, hwarn]
    · simp [hname]
  · rename_i hobject
    refine iff_of_false (by simp) ?_
    rintro ⟨⟨s, rfl⟩, -⟩
    exact hobject _ _ rfl

namespace Expr

/-- No character of a bare number is active, so it is no loss that such a
number is not checked where it stands unquoted. -/
theorem not_active_of_isBare {n : String} (h : Numeral.isBare n = true) :
    ∀ c ∈ n.toList, c ∉ activeCharacters := by
  intro c hc hactive
  have hbare := Numeral.isBareChar_of_isBare h c hc
  have hnone : activeCharacters.all (¬ Numeral.IsBareChar ·) = true := by decide
  exact of_decide_eq_true (List.all_eq_true.1 hnone c hactive) hbare

theorem accepted_argument (target : Target) (e : Expr) :
    Accepted (e.argument target) ↔ Accepted (e.text target) := by
  unfold argument embedArgument
  split
  · rename_i n span
    split
    · rename_i hbare
      rw [text, accepted_literalText]
      exact iff_of_true (accepted_ok n) (not_active_of_isBare hbare)
    · exact accepted_map _ _
  · exact accepted_map _ _

theorem accepted_value (target : Target) (e : Expr) :
    Accepted (e.value target) ↔ Accepted (e.text target) := accepted_map _ _

section Positions

variable (role : Role) (op : BinaryOp) (e left right callee object : Expr)
  (arguments : List Expr) (property : String) (span : Span)

theorem positions_binary :
    (binary op left right span).positions role
      = .expression (binary op left right span) role
        :: (left.positions .value ++ right.positions .value) := by
  rw [positions, parts]
  rfl

theorem positions_logical (op : LogicalOp) :
    (logical op left right span).positions role
      = .expression (logical op left right span) role
        :: (left.positions .condition ++ right.positions .condition) := by
  rw [positions, parts]
  rfl

theorem positions_not :
    (not e span).positions role = .expression (not e span) role :: e.positions .condition := by
  rw [positions, parts]
  rfl

theorem positions_call :
    (call callee arguments span).positions role
      = .expression (call callee arguments span) role
        :: (callee.positions .callee ++ partsAll arguments) := by
  rw [positions, parts]
  rfl

theorem positions_member :
    (member object property span).positions role
      = .expression (member object property span) role :: object.positions .object := by
  rw [positions, parts]
  rfl

end Positions

theorem positions_subset_partsAll {e : Expr} {es : List Expr} (h : e ∈ es) :
    e.positions .value ⊆ partsAll es := by
  induction es with
  | nil => cases h
  | cons e' es ih =>
    rw [partsAll]
    rcases List.mem_cons.1 h with rfl | hmem
    · exact List.subset_append_left _ _
    · exact fun x hx => List.mem_append_right _ (ih hmem hx)

/-- The positions of a list of values are those of its members. -/
theorem forall_partsAll {P : Position → Prop} {es : List Expr} :
    (∀ x ∈ partsAll es, P x) ↔ ∀ e ∈ es, ∀ x ∈ e.positions .value, P x := by
  induction es with
  | nil => exact iff_of_true (by simp [partsAll]) (by simp)
  | cons e es ih =>
    rw [partsAll, List.forall_mem_append, ih]
    exact (List.forall_mem_cons (p := fun e : Expr => ∀ x ∈ e.positions .value, P x)).symm

variable (w : Setting)

/-- **A call is accepted** if its callee is the name of a command or a
method that prints, and its arguments are accepted. -/
theorem accepted_call (callee : Expr) (arguments : List Expr) (span : Span)
    (harguments : ∀ e ∈ arguments, Accepted (e.text w.options.target)
      ↔ ∀ x ∈ e.positions .value, x.Allowed w) :
    Accepted (callText callee arguments span (texts w.options.target arguments))
      ↔ (∀ x ∈ callee.positions .callee, x.Allowed w)
        ∧ ∀ x ∈ partsAll arguments, x.Allowed w := by
  have hparts : (∀ e ∈ arguments, Accepted (e.text w.options.target))
      ↔ ∀ x ∈ partsAll arguments, x.Allowed w := by
    rw [forall_partsAll]
    exact forall₂_congr harguments
  cases callee with
  | identifier name s =>
    rw [callText_identifier, accepted_map, accepted_mapM, ← hparts]
    simp only [accepted_argument]
    simp [positions, parts, Position.Allowed]
  | member object property s =>
    have hcallee : (∀ x ∈ (member object property s).positions .callee, x.Allowed w)
        ↔ (redirection? object property).isSome = true := by
      rw [redirection?_isSome]
      constructor
      · intro hall
        rcases hall _ List.mem_cons_self with ⟨_, _, h⟩ | ⟨o, _, _, h, hproperty⟩
        · cases h
        · cases h
          exact ⟨⟨o, rfl⟩, hproperty⟩
      · rintro ⟨⟨o, rfl⟩, hproperty⟩
        simp only [positions, parts, List.forall_mem_cons, Position.Allowed, List.not_mem_nil,
          false_implies, implies_true, and_true]
        exact .inr ⟨o, property, s, rfl, hproperty⟩
    rw [callText_member, hcallee, ← hparts]
    cases redirection? object property with
    | none => simp
    | some redirection => simp [accepted_mapM, accepted_value]
  | _ => simp [callText, positions, Position.Allowed]

/-- **An expression is accepted in a role** if all its positions are
allowed. -/
theorem accepted_iff (e : Expr) :
    (Accepted (e.text w.options.target) ↔ ∀ x ∈ e.positions .value, x.Allowed w)
      ∧ (Accepted (e.condition w.options.target)
        ↔ ∀ x ∈ e.positions .condition, x.Allowed w) := by
  induction e using Expr.induction_on with
  | identifier name span => simp [text, condition, positions, parts, Position.Allowed]
  | literal value span =>
    simp [text, condition, positions, parts, Position.Allowed, accepted_literalText]
  | binary op left right span ihl ihr =>
    have hleft := (accepted_value w.options.target left).trans ihl.1
    have hright := (accepted_value w.options.target right).trans ihr.1
    rw [text, condition]
    refine ⟨(accepted_operation (accepted_map _ _) .rfl).trans ?_,
      (accepted_operation .rfl (accepted_map _ _)).trans ?_⟩
    all_goals
      rw [positions_binary, List.forall_mem_cons, List.forall_mem_append]
      exact and_congr .rfl (and_congr hleft hright)
  | logical op left right span ihl ihr =>
    rw [text, condition]
    refine ⟨(accepted_bind fun _ => accepted_bind_pure _ _).trans ?_,
      (accepted_bind fun _ => accepted_bind_pure _ _).trans ?_⟩
    all_goals
      rw [positions_logical, List.forall_mem_cons, List.forall_mem_append, ihl.2, ihr.2]
      exact (and_iff_right trivial).symm
  | not argument span ih =>
    rw [text, condition, accepted_bind_pure, accepted_bind_pure, ih.2]
    refine ⟨?_, ?_⟩
    all_goals
      rw [positions_not, List.forall_mem_cons]
      exact (and_iff_right trivial).symm
  | call callee arguments span _ iha =>
    have hcall := accepted_call w callee arguments span fun e he => (iha e he).1
    rw [text, condition, hcall]
    refine ⟨?_, ?_⟩
    all_goals
      rw [positions_call, List.forall_mem_cons, List.forall_mem_append]
      exact (and_iff_right trivial).symm
  | member object property span _ =>
    rw [text, condition, accepted_map, accepted_memberText]
    refine ⟨?_, ?_⟩
    all_goals
      rw [positions_member, List.forall_mem_cons]
      refine (and_iff_left_of_imp ?_).symm
      rintro ⟨⟨s, rfl⟩, -⟩
      simp [positions, parts, Position.Allowed]
  | metaProperty owner own span => simp [text, condition, positions, Position.Allowed]
  | unsupported kind span => simp [text, condition, positions, Position.Allowed]

/-- A value that may be missing is accepted if it is missing. -/
theorem accepted_text? (e : Option Expr) :
    (∀ e' ∈ e, Accepted (e'.text w.options.target)) ↔ ∀ x ∈ positions? e, x.Allowed w := by
  cases e with
  | none => exact iff_of_true nofun nofun
  | some e =>
    simp only [Option.mem_some_iff, forall_eq']
    exact (accepted_iff w e).1

end Expr

/-! ## Statements -/

section Parts

variable (w : Setting)

theorem accepted_bindings (function : String) (index : Nat) (params : List Pattern) :
    Accepted (bindings function index params)
      ↔ ∀ x ∈ params.map Position.pattern, x.Allowed w := by
  induction params generalizing index with
  | nil => exact iff_of_true (accepted_ok []) nofun
  | cons p params ih =>
    rw [List.map_cons, List.forall_mem_cons, ← ih (index + 1)]
    cases p with
    | identifier name span =>
      rw [bindings, accepted_bind_pure]
      exact (and_iff_right trivial).symm
    | unsupported kind span => exact iff_of_false (not_accepted_error _) fun h => h.1

theorem accepted_declaratorLine (d : Declarator) :
    Accepted (declaratorLine w.options.target d) ↔ ∀ x ∈ d.positions, x.Allowed w := by
  obtain ⟨target, init, span⟩ := d
  rw [Declarator.positions, List.forall_mem_cons, ← Expr.accepted_text?]
  cases target with
  | unsupported kind s => exact iff_of_false (not_accepted_error _) fun h => h.1
  | identifier name s =>
    refine Iff.trans ?_ (and_iff_right trivial).symm
    cases init with
    | none => exact iff_of_true (accepted_ok _) nofun
    | some init => simp [declaratorLine, Expr.accepted_value]

theorem accepted_caseLabel (test : Option Expr) :
    Accepted (caseLabel w.options.target test) ↔ ∀ x ∈ Expr.positions? test, x.Allowed w := by
  rw [← Expr.accepted_text?]
  cases test with
  | none => exact iff_of_true (accepted_ok _) nofun
  | some test => simp [caseLabel, Expr.accepted_value]

theorem accepted_echoLine (value : Expr) :
    Accepted (echoLine w.options.target value) ↔ ∀ x ∈ value.positions .value, x.Allowed w := by
  rw [echoLine, accepted_map, Expr.accepted_value, (Expr.accepted_iff w value).1]

theorem endsCase_iff (consequent : List Stmt) :
    endsCase consequent = true
      ↔ ∃ s, consequent.getLast? = some s
        ∧ ((∃ span, s = .exit span) ∨ ∃ argument span, s = .ret argument span) := by
  unfold endsCase
  split
  · rename_i span hlast
    exact iff_of_true rfl ⟨_, hlast, .inl ⟨span, rfl⟩⟩
  · rename_i argument span hlast
    exact iff_of_true rfl ⟨_, hlast, .inr ⟨argument, span, rfl⟩⟩
  · rename_i hexit hret
    refine iff_of_false Bool.false_ne_true ?_
    rintro ⟨_, hlast, ⟨span, rfl⟩ | ⟨argument, span, rfl⟩⟩
    · exact hexit span hlast
    · exact hret argument span hlast

theorem allowed_switchCase (test : Option Expr) (consequent : List Stmt) (span : Span)
    (isLast : Bool) :
    (Position.switchCase (.mk test consequent span) isLast).Allowed w
      ↔ consequent = [] ∨ isLast = true ∨ endsCase consequent = true := by
  rw [endsCase_iff]
  rfl

end Parts

/-- Whether a function stands around the current statement. -/
def Nesting.hasFunction (n : Nesting) : Bool := decide (0 < n.functions)

namespace Stmt

open Emission

variable {w : Setting} {n : Nesting} {f : Bool}

/-- **A statement that is accepted exactly if its positions are
allowed**, from every nesting and also as an alternate. -/
def Matches (w : Setting) (s : Stmt) : Prop :=
  ∀ n : Nesting, (Accepted (outcome (s.emit w) n)
      ↔ ∀ x ∈ s.positions n.hasFunction, x.Allowed w)
    ∧ (Accepted (outcome (emitAlternate w (some s)) n)
      ↔ ∀ x ∈ s.positions n.hasFunction, x.Allowed w)

theorem accepted_emitAll {stmts : List Stmt} (h : ∀ s ∈ stmts, Matches w s) :
    Accepted (outcome (emitAll w stmts) n)
      ↔ ∀ x ∈ partsAll n.hasFunction stmts, x.Allowed w := by
  induction stmts with
  | nil =>
    rw [outcome_emitAll_nil, partsAll]
    exact iff_of_true (accepted_ok []) nofun
  | cons s ss ih =>
    rw [List.forall_mem_cons] at h
    rw [outcome_emitAll_cons, partsAll, List.forall_mem_append,
      accepted_bind fun _ => accepted_bind_pure _ _, (h.1 n).1, ih h.2]
    rfl

/-- The value that a function returns last needs no check for a function
around it. -/
theorem accepted_emitFunction {stmts : List Stmt} (h : ∀ s ∈ stmts, Matches w s)
    (hn : n.hasFunction = true) :
    Accepted (outcome (emitFunction w stmts) n) ↔ ∀ x ∈ partsAll true stmts, x.Allowed w := by
  induction stmts with
  | nil =>
    rw [outcome_emitFunction_nil, partsAll]
    exact iff_of_true (accepted_ok []) nofun
  | cons s ss ih =>
    rw [List.forall_mem_cons] at h
    obtain ⟨value, span, rfl, rfl⟩ | hcons := lastReturn_or s ss
    · rw [outcome_emitFunction_ret, accepted_map, accepted_echoLine, partsAll, partsAll, parts,
        List.append_nil, List.forall_mem_cons]
      exact (and_iff_right rfl).symm
    · rw [outcome_emitFunction_cons w n hcons, partsAll, List.forall_mem_append,
        accepted_bind fun _ => accepted_bind_pure _ _, (h.1 n).1, ih h.2, hn]
      rfl

/-- Only a `break` cares whether it ends a case. -/
theorem allowed_of_ne_exit {s : Stmt} (hs : ∀ span, s ≠ .exit span) (endsCase : Bool) :
    (Position.statement s f endsCase).Allowed w ↔ (Position.statement s f false).Allowed w := by
  cases s with
  | exit span => exact absurd rfl (hs span)
  | _ => exact .rfl

theorem accepted_emitCase {stmts : List Stmt} (h : ∀ s ∈ stmts, Matches w s) :
    Accepted (outcome (emitCase w stmts) n)
      ↔ ∀ x ∈ caseParts n.hasFunction stmts, x.Allowed w := by
  induction stmts with
  | nil =>
    rw [outcome_emitCase_nil, caseParts]
    exact iff_of_true (accepted_ok []) nofun
  | cons s ss ih =>
    rw [List.forall_mem_cons] at h
    obtain ⟨span, rfl, rfl⟩ | hcons := lastExit_or s ss
    · rw [outcome_emitCase_exit, caseParts, caseParts, parts]
      exact iff_of_true (accepted_ok []) (by simp [Position.Allowed])
    · rw [outcome_emitCase_cons w n hcons, caseParts, List.forall_mem_append,
        accepted_bind fun _ => accepted_bind_pure _ _, (h.1 n).1, ih h.2, positions,
        List.forall_mem_cons, List.forall_mem_cons]
      refine and_congr_left' (and_congr_left' ?_)
      by_cases hs : ∃ span, s = .exit span
      · obtain ⟨span, rfl⟩ := hs
        rw [List.isEmpty_eq_false_iff.2 (hcons span rfl)]
      · exact (allowed_of_ne_exit (fun span h => hs ⟨span, h⟩) _).symm

/-- **The cases of a `switch` are accepted** if each of them is, whatever
labels are carried along. -/
theorem accepted_emitCases {cases : List SwitchCase}
    (h : ∀ c ∈ cases, ∀ s ∈ c.consequent, Matches w s) (labels : List String)
    (hasDefault : Bool) :
    Accepted (outcome (SwitchCase.emitAll w labels hasDefault cases) n)
      ↔ ∀ x ∈ SwitchCase.partsAll n.hasFunction cases, x.Allowed w := by
  induction cases generalizing labels hasDefault with
  | nil =>
    rw [SwitchCase.outcome_emitAll_nil, SwitchCase.partsAll]
    exact iff_of_true (accepted_ok _) nofun
  | cons c rest ih =>
    obtain ⟨test, consequent, span⟩ := c
    rw [List.forall_mem_cons] at h
    rw [SwitchCase.outcome_emitAll_cons, SwitchCase.partsAll, List.forall_mem_append,
      List.forall_mem_append, List.forall_mem_cons, ← accepted_caseLabel, and_assoc,
      and_comm (a := Position.Allowed _ _), and_assoc]
    refine accepted_bind fun label => ?_
    rw [allowed_switchCase]
    split
    · -- the case has no statements and shares the arm of the next one
      rename_i hshared
      obtain ⟨rfl, -⟩ : consequent = [] ∧ rest ≠ [] := by simpa using hshared
      rw [ih h.2, caseParts]
      simp
    · split
      · -- the case runs into the next one
        rename_i hfalls
        obtain ⟨⟨hne, hends⟩, hrest⟩ :
          (consequent ≠ [] ∧ endsCase consequent = false) ∧ rest ≠ [] := by simpa using hfalls
        refine iff_of_false (not_accepted_error _) fun hall => ?_
        simp [hne, hends, hrest] at hall
      · rename_i hends
        have hended : consequent = [] ∨ rest.isEmpty = true ∨ endsCase consequent = true := by
          grind
        refine (accepted_bind fun lines => accepted_bind_of_ok fun _ => ⟨_, rfl⟩).trans ?_
        refine Iff.trans ?_ (and_iff_right hended).symm
        exact and_congr (accepted_emitCase h.1) (ih h.2 [] false)

/-- As an alternate, a statement other than an `if` is accepted if it is
accepted on its own. -/
theorem matches_of_ne_branch {s : Stmt}
    (hs : ∀ test consequent alternate span, s ≠ .branch test consequent alternate span)
    (h : ∀ n : Nesting, Accepted (outcome (s.emit w) n)
      ↔ ∀ x ∈ s.positions n.hasFunction, x.Allowed w) : Matches w s := by
  refine fun n => ⟨h n, ?_⟩
  rw [outcome_emitAlternate_else w n hs, accepted_map]
  exact h n

theorem accepted_alternate {alternate : Option Stmt} (h : ∀ s ∈ alternate, Matches w s) :
    Accepted (outcome (emitAlternate w alternate) n)
      ↔ ∀ x ∈ alternateParts n.hasFunction alternate, x.Allowed w := by
  cases alternate with
  | none =>
    rw [outcome_emitAlternate_none, alternateParts]
    exact iff_of_true (accepted_ok []) nofun
  | some s =>
    rw [alternateParts]
    exact (h s rfl n).2

theorem forall_positions_branch (test : Expr) (consequent : Stmt) (alternate : Option Stmt)
    (span : Span) :
    (∀ x ∈ (branch test consequent alternate span).positions f, x.Allowed w)
      ↔ (∀ x ∈ test.positions .condition, x.Allowed w)
        ∧ (∀ x ∈ consequent.positions f, x.Allowed w)
        ∧ ∀ x ∈ alternateParts f alternate, x.Allowed w := by
  rw [positions, parts, List.forall_mem_cons, List.forall_mem_append, List.forall_mem_append]
  exact (and_iff_right trivial).trans and_assoc

/-- **Every statement is accepted exactly if its positions are allowed.** -/
theorem matches_all (w : Setting) (s : Stmt) : Matches w s := by
  induction s using Stmt.induction_on with
  | block body span ih =>
    refine matches_of_ne_branch nofun fun n => ?_
    rw [outcome_block, accepted_emitAll ih, positions, parts, List.forall_mem_cons]
    exact (and_iff_right trivial).symm
  | empty span =>
    refine matches_of_ne_branch nofun fun n => ?_
    rw [outcome_empty, positions, parts]
    exact iff_of_true (accepted_ok []) (List.forall_mem_singleton.2 trivial)
  | expression value span =>
    refine matches_of_ne_branch nofun fun n => ?_
    rw [outcome_expression, positions, parts, List.forall_mem_cons, ← (Expr.accepted_iff w value).1]
    cases value with
    | call callee arguments s =>
      rw [accepted_map]
      exact (and_iff_right ⟨callee, arguments, s, rfl⟩).symm
    | unsupported kind s =>
      rw [accepted_map, Expr.text]
      exact iff_of_false (not_accepted_error _) fun h => not_accepted_error _ h.2
    | _ => exact iff_of_false (not_accepted_error _) fun ⟨⟨_, _, _, h⟩, _⟩ => nomatch h
  | branch test consequent alternate span ihc iha =>
    have htest := (Expr.accepted_iff w test).2
    -- an `if` as an alternate is one level less deep, which no position sees
    refine fun n => ⟨?_, ?_⟩
    · rw [outcome_branch, forall_positions_branch, accepted_bind fun _ => accepted_bind fun _ =>
        accepted_bind_pure _ _, htest, (ihc n.inIf).1, accepted_alternate iha]
      rfl
    · rw [outcome_emitAlternate_branch, forall_positions_branch, accepted_bind fun _ =>
        accepted_bind fun _ => accepted_bind_pure _ _, htest, (ihc n).1, accepted_alternate iha]
  | function name params body span ih =>
    refine matches_of_ne_branch nofun fun n => ?_
    rw [outcome_function, positions, parts, List.forall_mem_cons, List.forall_mem_append,
      accepted_bind fun _ => accepted_bind_pure _ _, accepted_bindings w,
      accepted_emitFunction ih (by simp [Nesting.inFunction, Nesting.hasFunction])]
    exact (and_iff_right trivial).symm
  | ret argument span =>
    refine matches_of_ne_branch nofun fun n => ?_
    rw [outcome_ret, positions, parts, List.forall_mem_cons, ← Expr.accepted_text?]
    show _ ↔ decide (0 < n.functions) = true ∧ _
    split
    · rename_i hzero
      refine iff_of_false (not_accepted_error _) fun h => ?_
      simp [hzero] at h
    · rename_i hpos
      refine Iff.trans ?_ (and_iff_right (decide_eq_true (Nat.pos_of_ne_zero hpos))).symm
      cases argument with
      | none => exact iff_of_true (accepted_ok _) nofun
      | some value =>
        simp only [accepted_map, echoLine, Expr.accepted_value, Option.mem_some_iff, forall_eq']
  | declaration kind declarators span =>
    refine matches_of_ne_branch nofun fun n => ?_
    rw [outcome_declaration, positions, parts, List.forall_mem_cons, accepted_mapM,
      List.forall_mem_flatMap]
    simp only [accepted_declaratorLine]
    exact (and_iff_right trivial).symm
  | switch discriminant cases span ih =>
    refine matches_of_ne_branch nofun fun n => ?_
    rw [outcome_switch, positions, parts, List.forall_mem_cons, List.forall_mem_append]
    refine (accepted_bind fun _ => accepted_bind_of_ok fun _ => ⟨_, rfl⟩).trans ?_
    rw [Expr.accepted_value, (Expr.accepted_iff w discriminant).1, accepted_emitCases ih]
    exact (and_iff_right trivial).symm
  | importModule source span =>
    refine matches_of_ne_branch nofun fun n => ?_
    rw [outcome_importModule, accepted_map, positions, parts, List.forall_mem_singleton]
    rfl
  | exit span =>
    refine matches_of_ne_branch nofun fun n => ?_
    rw [outcome_exit, positions, parts, List.forall_mem_singleton]
    exact iff_of_false (not_accepted_error _) Bool.false_ne_true
  | unsupported kind span =>
    refine matches_of_ne_branch nofun fun n => ?_
    rw [outcome_unsupported, positions, parts, List.forall_mem_singleton]
    exact iff_of_false (not_accepted_error _) id

/-- A list of statements is accepted chunk by chunk. -/
theorem accepted_chunks (w : Setting) (n : Nesting) (stmts : List Stmt) :
    Accepted (outcome (chunks w stmts) n)
      ↔ ∀ x ∈ partsAll n.hasFunction stmts, x.Allowed w := by
  induction stmts with
  | nil =>
    rw [outcome_chunks_nil, partsAll]
    exact iff_of_true (accepted_ok []) nofun
  | cons s ss ih =>
    rw [outcome_chunks_cons, partsAll, List.forall_mem_append,
      accepted_bind fun _ => accepted_bind_pure _ _, (matches_all w s n).1, ih]
    rfl

end Stmt

/-! ## Programs -/

/-- **A program has a script exactly if each of its positions is
allowed.** -/
theorem Program.chunks_ok_iff (w : Setting) (p : Program) :
    (∃ chunks, p.chunks w = .ok chunks) ↔ ∀ x ∈ p.positions, x.Allowed w :=
  Stmt.accepted_chunks w {} p.body

end ScriptToShell
