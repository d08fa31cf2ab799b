import ScriptToShell.Proofs.Fragment

/-!
# What a fault points at

A fault is raised deep inside a program and handed up unchanged, so its
span is all that is left of the place it came from. This module shows that
the span can be trusted. A fault of a program points at a position of the
first statement that has no script of its own, and at one that is to blame
(`Program.fault_points_at_culprit`).

A position is **to blame** if it is not allowed where it stands, whatever
stands below it (`Position.ToBlame`). There is one twist. What is wrong with
a call is what it calls, and yet the fault has the span of the call.

The argument is that of `Program.chunks_ok_iff`, carried out for faults
instead of successes. An outcome **accuses** some positions if its fault, in
case it is one, points at one of them that is to blame; the positions of a
sequence are those of its parts.
-/

namespace ScriptToShell

open Emit Emission

/-! ## Culprits -/

/-- Where a position stands. -/
def Position.span : Position → Span
  | .statement s _ _ => s.span
  | .switchCase c _ => c.span
  | .expression e _ => e.span
  | .pattern p => p.span

/-- **A position that is to blame**: it is not allowed, or it is a call of
something that cannot be called. -/
def Position.ToBlame (w : Setting) : Position → Prop
  | .expression (.call callee _ _) _ => ¬(Position.expression callee .callee).Allowed w
  | x => ¬x.Allowed w

/-- **What a fault points at**: the construct whose span it has, the operation
whose operator and span it has, or the import of the module it names. Faults
of other kinds point at nothing in a program. -/
def Fault.PointsAt : Fault → Position → Prop
  | .unsupported _ _ span, x => span = some x.span
  | .invalidOperator op _ span, x =>
    ∃ left right role, x = .expression (.binary op left right span) role
  | .moduleNotFound specifier _, x =>
    ∃ span inFunction endsCase, x = .statement (.importModule specifier span) inFunction endsCase
  | .malformed .., _ | .moduleUnreadable .., _ | .importCycle _, _ => False

/-- **A setting whose modules are held in memory.** Any other module is not
found. -/
def Setting.inMemory (options : Options) (texts : String → Option String) : Setting where
  options
  modules source :=
    match texts source with
    | some text => .ok text
    | none => .error (.moduleNotFound source ⟨source⟩)

/-- A setting in which modules are at hand or not to be found. -/
def Setting.LacksOnly (w : Setting) : Prop :=
  ∀ source fault, w.modules source = .error fault → ∃ path, fault = .moduleNotFound source path

theorem Setting.lacksOnly_inMemory (options : Options) (texts : String → Option String) :
    (Setting.inMemory options texts).LacksOnly := by
  intro source fault h
  unfold inMemory at h
  dsimp only at h
  split at h
  · cases h
  · cases h
    exact ⟨_, rfl⟩

/-! ## Outcomes that accuse -/

/-- **An outcome that accuses positions**: if it is a fault, it points at one
of them that is to blame. -/
def Accuses {α : Type} (w : Setting) (x : Except Fault α) (positions : List Position) : Prop :=
  ∀ fault, x = .error fault → ∃ y ∈ positions, fault.PointsAt y ∧ y.ToBlame w

section Accuses

variable {α β : Type} {w : Setting} {x : Except Fault α} {ps qs : List Position}

theorem accuses_ok (a : α) : Accuses w (.ok a) ps := nofun

/-- What fails at one position accuses it. -/
theorem accuses_of_pointsAt {y : Position} (hmem : y ∈ ps)
    (hpoints : ∀ fault, x = .error fault → fault.PointsAt y)
    (hblame : ¬Accepted x → y.ToBlame w) : Accuses w x ps := by
  rintro fault rfl
  exact ⟨y, hmem, hpoints fault rfl, hblame (not_accepted_error fault)⟩

/-- A construct that is rejected accuses itself. -/
theorem accuses_error {fault : Fault} {y : Position} (hpoints : fault.PointsAt y)
    (hblame : y.ToBlame w) : Accuses w (.error fault : Except Fault α) (y :: ps) := by
  rintro _ ⟨⟩
  exact ⟨y, List.mem_cons_self, hpoints, hblame⟩

theorem Accuses.mono (h : Accuses w x ps) (hsub : ps ⊆ qs) : Accuses w x qs := by
  intro fault hfault
  obtain ⟨y, hy, hpoints⟩ := h fault hfault
  exact ⟨y, hsub hy, hpoints⟩

theorem Accuses.map (h : Accuses w x ps) (f : α → β) : Accuses w (x.map f) ps := by
  cases x with
  | ok a => exact accuses_ok (f a)
  | error fault =>
    rintro _ ⟨⟩
    exact h fault rfl

/-- **A sequence accuses what its parts accuse.** -/
theorem Accuses.seq (h : Accuses w x ps) {f : α → Except Fault β}
    (hf : ∀ a, Accuses w (f a) ps) : Accuses w (x >>= f) ps := by
  cases x with
  | ok a => exact hf a
  | error fault =>
    rintro _ ⟨⟩
    exact h fault rfl

theorem Accuses.bind (h : Accuses w x ps) {f : α → Except Fault β}
    (hf : ∀ a, Accuses w (f a) qs) : Accuses w (x >>= f) (ps ++ qs) :=
  (h.mono (List.subset_append_left ps qs)).seq fun a =>
    (hf a).mono (List.subset_append_right ps qs)

theorem Accuses.bind_of_ok (h : Accuses w x ps) {f : α → Except Fault β}
    (hf : ∀ a, Accepted (f a)) : Accuses w (x >>= f) ps := by
  refine h.seq fun a => ?_
  obtain ⟨b, hb⟩ := hf a
  rw [hb]
  exact accuses_ok b

theorem accuses_mapM {f : α → Except Fault β} {as : List α}
    (h : ∀ a ∈ as, Accuses w (f a) ps) : Accuses w (as.mapM f) ps := by
  induction as with
  | nil => exact accuses_ok []
  | cons a as ih =>
    rw [List.forall_mem_cons] at h
    rw [List.mapM_cons]
    exact h.1.seq fun _ => (ih h.2).bind_of_ok fun _ => accepted_ok _

end Accuses

/-! ## Expressions -/

section Operations

variable {w : Setting} {ps : List Position} {op : BinaryOp} {span : Span}
  {left right : Except Fault String}

/-- A comparison has its operator. -/
theorem accuses_comparison (hop : op.isComparison = true) (hleft : Accuses w left ps)
    {qs : List Position} (hright : Accuses w right qs) :
    Accuses w (comparison op span left right) (ps ++ qs) := by
  obtain ⟨o, ho⟩ := (accepted_testOperator op span).2 ((isComparison_iff op).1 hop)
  rw [comparison, ho]
  exact hleft.bind fun _ => hright.bind_of_ok fun _ => accepted_ok _

/-- An operation without an operator accuses itself. -/
theorem accuses_arithmetic (hop : op.isComparison = false) {l r : Expr} {role : Role}
    (hleft : Accuses w left ps) {qs : List Position} (hright : Accuses w right qs) :
    Accuses w (arithmetic w.options.target op span left right)
      (.expression (.binary op l r span) role :: (ps ++ qs)) := by
  have hoperator : Accuses w (arithmeticOperator op w.options.target span)
      [.expression (.binary op l r span) role] := by
    refine accuses_of_pointsAt List.mem_cons_self (fun fault hfault => ?_)
      fun hrejected hallowed => ?_
    · obtain ⟨text, htext⟩ | ⟨name, hname⟩ := arithmeticOperator_cases op w.options.target
      · cases (htext span).symm.trans hfault
      · cases (hname span).symm.trans hfault
        exact ⟨l, r, role, rfl⟩
    · rw [accepted_arithmeticOperator] at hrejected
      have hcompares : op ∉ comparisonOperators := by
        rw [← isComparison_iff, hop]
        exact Bool.false_ne_true
      cases role with
      | callee => rcases hallowed with ⟨_, _, h⟩ | ⟨_, _, _, h, -⟩ <;> cases h
      | _ => exact hallowed.elim hcompares hrejected
  rw [arithmetic]
  exact hoperator.bind fun _ => hleft.bind fun _ => hright.bind_of_ok fun _ => accepted_ok _

end Operations

/-- The text of a literal accuses the literal. -/
theorem accuses_literalText {w : Setting} {value : Literal} {span : Span} {ps : List Position}
    (hmem : .expression (.literal value span) .value ∈ ps) :
    Accuses w (literalText value span) ps := by
  refine accuses_of_pointsAt hmem (fun fault hfault => ?_) fun hrejected hallowed => ?_
  · unfold literalText at hfault
    split at hfault
    · cases hfault
      rfl
    · cases hfault
  · exact hrejected ((accepted_literalText value span).2 (hallowed.resolve_left nofun))

/-- An access to a property accuses itself. -/
theorem accuses_memberText {w : Setting} {object : Expr} {property : String} {span : Span}
    {ps : List Position} (role : Role) (hrole : role ≠ .callee)
    (hmem : .expression (.member object property span) role ∈ ps) :
    Accuses w (memberText object property span) ps := by
  refine accuses_of_pointsAt hmem (fun fault hfault => ?_) fun hrejected hallowed => ?_
  · unfold memberText at hfault
    split at hfault
    · split at hfault
      · split at hfault
        · cases hfault
        · split at hfault <;> cases hfault
          rfl
      · cases hfault
        rfl
    · cases hfault
      rfl
  · cases role with
    | callee => exact hrole rfl
    | _ => exact hrejected ((accepted_memberText object property span).2 hallowed)

namespace Expr

variable {w : Setting}

theorem accuses_value {e : Expr} {ps : List Position}
    (h : Accuses w (e.text w.options.target) ps) : Accuses w (e.value w.options.target) ps :=
  h.map _

theorem accuses_argument {e : Expr} {ps : List Position}
    (h : Accuses w (e.text w.options.target) ps) : Accuses w (e.argument w.options.target) ps := by
  unfold argument embedArgument
  split
  · split
    · exact accuses_ok _
    · exact h.map _
  · exact h.map _

/-- **A call accuses itself or what its arguments accuse.** -/
theorem accuses_call (callee : Expr) (arguments : List Expr) (span : Span) (role : Role)
    (h : ∀ e ∈ arguments, Accuses w (e.text w.options.target) (e.positions .value)) :
    Accuses w (callText callee arguments span (texts w.options.target arguments))
      ((call callee arguments span).positions role) := by
  rw [positions_call]
  have harguments : ∀ e ∈ arguments, Accuses w (e.text w.options.target)
      (.expression (call callee arguments span) role
        :: (callee.positions .callee ++ partsAll arguments)) := fun e he =>
    (h e he).mono fun x hx => List.mem_cons_of_mem _
      (List.mem_append_right _ (positions_subset_partsAll he hx))
  cases callee with
  | identifier name s =>
    rw [callText_identifier]
    exact (accuses_mapM fun e he => accuses_argument (harguments e he)).map _
  | member object property s =>
    rw [callText_member]
    cases hprints : redirection? object property with
    | some redirection => exact (accuses_mapM fun e he => accuses_value (harguments e he)).map _
    | none =>
      refine accuses_error rfl fun hallowed => ?_
      obtain ⟨_, _, heq⟩ | ⟨o, _, _, heq, hproperty⟩ := hallowed
      · cases heq
      · cases heq
        have hsome := (redirection?_isSome (.identifier "console" o) property).2
          ⟨⟨o, rfl⟩, hproperty⟩
        rw [hprints] at hsome
        cases hsome
  | _ =>
    refine accuses_error rfl fun hallowed => ?_
    rcases hallowed with ⟨_, _, heq⟩ | ⟨_, _, _, heq, -⟩ <;> cases heq

/-- **An expression accuses its positions** in the role it is used in. -/
theorem accuses_positions (w : Setting) (e : Expr) :
    Accuses w (e.text w.options.target) (e.positions .value)
      ∧ Accuses w (e.condition w.options.target) (e.positions .condition) := by
  induction e using Expr.induction_on with
  | identifier name span =>
    rw [text, condition]
    exact ⟨accuses_ok _, accuses_ok _⟩
  | literal value span =>
    rw [text, condition]
    exact ⟨accuses_literalText List.mem_cons_self, accuses_ok _⟩
  | binary op left right span ihl ihr =>
    have hleft := accuses_value ihl.1
    have hright := accuses_value ihr.1
    rw [text, condition, positions_binary, positions_binary]
    cases hop : op.isComparison with
    | true =>
      have htest : Accuses w (comparison op span _ _) _ := accuses_comparison hop hleft hright
      exact ⟨(htest.map _).mono (List.subset_cons_self _ _),
        htest.mono (List.subset_cons_self _ _)⟩
    | false =>
      exact ⟨accuses_arithmetic hop hleft hright, (accuses_arithmetic hop hleft hright).map _⟩
  | logical op left right span ihl ihr =>
    rw [text, condition, positions_logical, positions_logical]
    refine ⟨?_, ?_⟩
    all_goals
      exact (ihl.2.bind fun _ => ihr.2.bind_of_ok fun _ => accepted_ok _).mono
        (List.subset_cons_self _ _)
  | not argument span ih =>
    rw [text, condition, positions_not, positions_not]
    refine ⟨?_, ?_⟩
    all_goals exact (ih.2.bind_of_ok fun _ => accepted_ok _).mono (List.subset_cons_self _ _)
  | call callee arguments span _ iha =>
    rw [text, condition]
    exact ⟨accuses_call callee arguments span .value fun e he => (iha e he).1,
      accuses_call callee arguments span .condition fun e he => (iha e he).1⟩
  | member object property span _ =>
    rw [text, condition, positions_member, positions_member]
    exact ⟨accuses_memberText .value (by rintro ⟨⟩) List.mem_cons_self,
      (accuses_memberText .condition (by rintro ⟨⟩) List.mem_cons_self).map _⟩
  | metaProperty owner own span =>
    rw [text, condition]
    exact ⟨accuses_error rfl (by rintro ⟨⟩), accuses_error rfl (by rintro ⟨⟩)⟩
  | unsupported kind span =>
    rw [text, condition]
    exact ⟨accuses_error rfl id, accuses_error rfl id⟩

theorem accuses_value_positions (w : Setting) (e : Expr) :
    Accuses w (e.value w.options.target) (e.positions .value) :=
  accuses_value (accuses_positions w e).1

end Expr

/-! ## Statements -/

section Parts

variable (w : Setting)

theorem accuses_bindings (function : String) (index : Nat) (params : List Pattern) :
    Accuses w (bindings function index params) (params.map .pattern) := by
  induction params generalizing index with
  | nil => exact accuses_ok []
  | cons p params ih =>
    cases p with
    | identifier name span =>
      exact ((ih (index + 1)).bind_of_ok fun _ => accepted_ok _).mono (List.subset_cons_self _ _)
    | unsupported kind span => exact accuses_error rfl id

theorem accuses_declaratorLine (d : Declarator) :
    Accuses w (declaratorLine w.options.target d) d.positions := by
  obtain ⟨target, init, span⟩ := d
  cases target with
  | unsupported kind s => exact accuses_error rfl id
  | identifier name s =>
    cases init with
    | none => exact accuses_ok _
    | some init =>
      exact ((init.accuses_value_positions w).map _).mono (List.subset_cons_self _ _)

theorem accuses_caseLabel (test : Option Expr) :
    Accuses w (caseLabel w.options.target test) (Expr.positions? test) := by
  cases test with
  | none => exact accuses_ok _
  | some test => exact test.accuses_value_positions w

theorem accuses_echoLine (value : Expr) :
    Accuses w (echoLine w.options.target value) (value.positions .value) :=
  (value.accuses_value_positions w).map _

end Parts

/-- A fault that points at a statement does so wherever the statement is. -/
theorem Fault.PointsAt.of_statement {fault : Fault} {s : Stmt} {f f' e e' : Bool}
    (h : fault.PointsAt (.statement s f e)) : fault.PointsAt (.statement s f' e') := by
  cases fault with
  | unsupported kind detail span => exact h
  | invalidOperator op name span => exact nomatch h
  | moduleNotFound specifier path =>
    obtain ⟨span, _, _, heq⟩ := h
    cases heq
    exact ⟨span, f', e', rfl⟩
  | _ => exact h

namespace Stmt

variable {w : Setting} {n : Nesting}

/-- **A statement that accuses its positions**, from every nesting and also
as an alternate. -/
def Accusing (w : Setting) (s : Stmt) : Prop :=
  ∀ n : Nesting, Accuses w (outcome (s.emit w) n) (s.positions n.hasFunction)
    ∧ Accuses w (outcome (emitAlternate w (some s)) n) (s.positions n.hasFunction)

theorem accuses_emitAll {stmts : List Stmt} (h : ∀ s ∈ stmts, Accusing w s) :
    Accuses w (outcome (emitAll w stmts) n) (partsAll n.hasFunction stmts) := by
  induction stmts with
  | nil =>
    rw [outcome_emitAll_nil]
    exact accuses_ok []
  | cons s ss ih =>
    rw [List.forall_mem_cons] at h
    rw [outcome_emitAll_cons, partsAll]
    exact (h.1 n).1.bind fun _ => (ih h.2).bind_of_ok fun _ => accepted_ok _

theorem accuses_emitFunction {stmts : List Stmt} (h : ∀ s ∈ stmts, Accusing w s)
    (hn : n.hasFunction = true) :
    Accuses w (outcome (emitFunction w stmts) n) (partsAll true stmts) := by
  induction stmts with
  | nil =>
    rw [outcome_emitFunction_nil]
    exact accuses_ok []
  | cons s ss ih =>
    rw [List.forall_mem_cons] at h
    obtain ⟨value, span, rfl, rfl⟩ | hcons := lastReturn_or s ss
    · rw [outcome_emitFunction_ret, partsAll, partsAll, parts, List.append_nil]
      exact ((accuses_echoLine w value).map _).mono (List.subset_cons_self _ _)
    · have hs := (h.1 n).1
      rw [hn] at hs
      rw [outcome_emitFunction_cons w n hcons, partsAll]
      exact hs.bind fun _ => (ih h.2).bind_of_ok fun _ => accepted_ok _

/-- A statement of a case that is emitted accuses its positions there. The
one that is not is a `break` at the end. -/
theorem Accusing.inCase {s : Stmt} {ss : List Stmt} (h : Accusing w s)
    (hs : ∀ span, s = .exit span → ss ≠ []) :
    Accuses w (outcome (s.emit w) n)
      (.statement s n.hasFunction ss.isEmpty :: s.parts n.hasFunction) := by
  intro fault hfault
  obtain ⟨y, hy, hpoints, hblame⟩ := (h n).1 fault hfault
  rcases List.mem_cons.1 hy with rfl | hparts
  · refine ⟨_, List.mem_cons_self, hpoints.of_statement, fun hallowed => hblame ?_⟩
    by_cases hexit : ∃ span, s = .exit span
    · obtain ⟨span, rfl⟩ := hexit
      rwa [List.isEmpty_eq_false_iff.2 (hs span rfl)] at hallowed
    · exact (allowed_of_ne_exit (fun span heq => hexit ⟨span, heq⟩) _).1 hallowed
  · exact ⟨y, List.mem_cons_of_mem _ hparts, hpoints, hblame⟩

theorem accuses_emitCase {stmts : List Stmt} (h : ∀ s ∈ stmts, Accusing w s) :
    Accuses w (outcome (emitCase w stmts) n) (caseParts n.hasFunction stmts) := by
  induction stmts with
  | nil =>
    rw [outcome_emitCase_nil]
    exact accuses_ok []
  | cons s ss ih =>
    rw [List.forall_mem_cons] at h
    obtain ⟨span, rfl, rfl⟩ | hcons := lastExit_or s ss
    · rw [outcome_emitCase_exit]
      exact accuses_ok []
    · rw [outcome_emitCase_cons w n hcons, caseParts]
      exact (h.1.inCase hcons).bind fun _ => (ih h.2).bind_of_ok fun _ => accepted_ok _

/-- **The cases of a `switch` accuse their positions.** A case that runs into
the next one is to blame itself. -/
theorem accuses_emitCases {cases : List SwitchCase}
    (h : ∀ c ∈ cases, ∀ s ∈ c.consequent, Accusing w s) (labels : List String)
    (hasDefault : Bool) :
    Accuses w (outcome (SwitchCase.emitAll w labels hasDefault cases) n)
      (SwitchCase.partsAll n.hasFunction cases) := by
  induction cases generalizing labels hasDefault with
  | nil =>
    rw [SwitchCase.outcome_emitAll_nil]
    exact accuses_ok _
  | cons c rest ih =>
    obtain ⟨test, consequent, span⟩ := c
    rw [List.forall_mem_cons] at h
    have hlabel := accuses_caseLabel w test
    rw [SwitchCase.outcome_emitAll_cons, SwitchCase.partsAll, List.append_assoc, List.cons_append]
    refine (hlabel.mono (List.subset_cons_of_subset _ (List.subset_append_left _ _))).seq
      fun label => ?_
    split
    · -- the case has no statements and shares the arm of the next one
      refine (ih h.2 _ _).mono (List.subset_cons_of_subset _ ?_)
      exact List.Subset.trans (List.subset_append_right _ _) (List.subset_append_right _ _)
    · split
      · -- the case runs into the next one
        rename_i hfalls
        obtain ⟨⟨hne, hends⟩, hrest⟩ :
          (consequent ≠ [] ∧ endsCase consequent = false) ∧ rest ≠ [] := by simpa using hfalls
        refine accuses_error rfl fun hallowed => ?_
        rw [allowed_switchCase] at hallowed
        simp [hne, hends, hrest] at hallowed
      · refine Accuses.mono ?_ (List.subset_cons_of_subset _ (List.subset_append_right _ _))
        exact (accuses_emitCase h.1).bind fun _ => (ih h.2 [] false).bind_of_ok fun _ => ⟨_, rfl⟩

/-- As an alternate, a statement other than an `if` accuses what it accuses
on its own. -/
theorem accusing_of_ne_branch {s : Stmt}
    (hs : ∀ test consequent alternate span, s ≠ .branch test consequent alternate span)
    (h : ∀ n : Nesting, Accuses w (outcome (s.emit w) n) (s.positions n.hasFunction)) :
    Accusing w s := by
  refine fun n => ⟨h n, ?_⟩
  rw [outcome_emitAlternate_else w n hs]
  exact (h n).map _

theorem accuses_alternate {alternate : Option Stmt} (h : ∀ s ∈ alternate, Accusing w s) :
    Accuses w (outcome (emitAlternate w alternate) n) (alternateParts n.hasFunction alternate) := by
  cases alternate with
  | none =>
    rw [outcome_emitAlternate_none]
    exact accuses_ok []
  | some s =>
    rw [alternateParts]
    exact (h s rfl n).2

theorem positions_branch (f : Bool) (test : Expr) (consequent : Stmt) (alternate : Option Stmt)
    (span : Span) :
    (branch test consequent alternate span).positions f
      = .statement (branch test consequent alternate span) f false :: (test.positions .condition
          ++ (consequent.positions f ++ alternateParts f alternate)) := by
  rw [positions, parts, List.append_assoc]
  rfl

/-- **Every statement accuses its positions**, where modules are at hand or
not to be found. -/
theorem accusing_all (hw : w.LacksOnly) (s : Stmt) : Accusing w s := by
  induction s using Stmt.induction_on with
  | block body span ih =>
    refine accusing_of_ne_branch (by rintro _ _ _ _ ⟨⟩) fun n => ?_
    rw [outcome_block, positions, parts]
    exact (accuses_emitAll ih).mono (List.subset_cons_self _ _)
  | empty span =>
    refine accusing_of_ne_branch (by rintro _ _ _ _ ⟨⟩) fun n => ?_
    rw [outcome_empty]
    exact accuses_ok []
  | expression value span =>
    refine accusing_of_ne_branch (by rintro _ _ _ _ ⟨⟩) fun n => ?_
    have hvalue := (Expr.accuses_positions w value).1.map splitText
    rw [outcome_expression, positions, parts]
    cases value with
    | call callee arguments s => exact hvalue.mono (List.subset_cons_self _ _)
    | unsupported kind s => exact hvalue.mono (List.subset_cons_self _ _)
    | _ => exact accuses_error rfl (by rintro ⟨_, _, _, ⟨⟩⟩)
  | branch test consequent alternate span ihc iha =>
    have htest := (Expr.accuses_positions w test).2
    -- an `if` as an alternate is one level less deep, which no position sees
    refine fun n => ⟨?_, ?_⟩
    · rw [outcome_branch, positions_branch]
      refine Accuses.mono ?_ (List.subset_cons_self _ _)
      exact htest.bind fun _ => (ihc n.inIf).1.bind fun _ =>
        (accuses_alternate iha).bind_of_ok fun _ => accepted_ok _
    · rw [outcome_emitAlternate_branch, positions_branch]
      refine Accuses.mono ?_ (List.subset_cons_self _ _)
      exact htest.bind fun _ => (ihc n).1.bind fun _ =>
        (accuses_alternate iha).bind_of_ok fun _ => accepted_ok _
  | function name params body span ih =>
    refine accusing_of_ne_branch (by rintro _ _ _ _ ⟨⟩) fun n => ?_
    have hinside : n.inFunction.hasFunction = true := by
      simp [Nesting.inFunction, Nesting.hasFunction]
    rw [outcome_function, positions, parts]
    refine Accuses.mono ?_ (List.subset_cons_self _ _)
    exact (accuses_bindings w name 1 params).bind fun _ =>
      (accuses_emitFunction ih hinside).bind_of_ok fun _ => accepted_ok _
  | ret argument span =>
    refine accusing_of_ne_branch (by rintro _ _ _ _ ⟨⟩) fun n => ?_
    rw [outcome_ret, positions, parts]
    split
    · rename_i hzero
      refine accuses_error rfl fun hallowed => ?_
      simp [Position.Allowed, Nesting.hasFunction, hzero] at hallowed
    · cases argument with
      | none => exact accuses_ok _
      | some value => exact ((accuses_echoLine w value).map _).mono (List.subset_cons_self _ _)
  | declaration kind declarators span =>
    refine accusing_of_ne_branch (by rintro _ _ _ _ ⟨⟩) fun n => ?_
    rw [outcome_declaration, positions, parts]
    refine accuses_mapM fun d hd => (accuses_declaratorLine w d).mono fun x hx => ?_
    exact List.mem_cons_of_mem _ (List.mem_flatMap.2 ⟨d, hd, hx⟩)
  | switch discriminant cases span ih =>
    refine accusing_of_ne_branch (by rintro _ _ _ _ ⟨⟩) fun n => ?_
    rw [outcome_switch, positions, parts]
    refine Accuses.mono ?_ (List.subset_cons_self _ _)
    exact (discriminant.accuses_value_positions w).bind fun _ =>
      (accuses_emitCases ih [] false).bind_of_ok fun _ => ⟨_, rfl⟩
  | importModule source span =>
    refine accusing_of_ne_branch (by rintro _ _ _ _ ⟨⟩) fun n => ?_
    rw [outcome_importModule, positions]
    refine (accuses_of_pointsAt List.mem_cons_self (fun fault hfault => ?_) id).map spliced
    obtain ⟨path, rfl⟩ := hw source fault hfault
    exact ⟨span, n.hasFunction, false, rfl⟩
  | exit span =>
    refine accusing_of_ne_branch (by rintro _ _ _ _ ⟨⟩) fun n => ?_
    rw [outcome_exit, positions]
    exact accuses_error rfl Bool.false_ne_true
  | unsupported kind span =>
    refine accusing_of_ne_branch (by rintro _ _ _ _ ⟨⟩) fun n => ?_
    rw [outcome_unsupported, positions]
    exact accuses_error rfl id

end Stmt

/-! ## Programs -/

/-- The first of a list to fail is the one whose fault comes out. -/
theorem exists_first_error {α β : Type} {f : α → Except Fault β} {as : List α} {fault : Fault}
    (h : as.mapM f = .error fault) :
    ∃ before a after, as = before ++ a :: after ∧ (∀ b ∈ before, Accepted (f b))
      ∧ f a = .error fault := by
  induction as with
  | nil => cases h
  | cons a as ih =>
    rw [List.mapM_cons] at h
    cases ha : f a with
    | error e =>
      rw [ha] at h
      cases h
      exact ⟨[], a, as, rfl, nofun, ha⟩
    | ok b =>
      rw [ha] at h
      cases hrest : as.mapM f with
      | ok bs =>
        rw [hrest] at h
        cases h
      | error e =>
        rw [hrest] at h
        cases h
        obtain ⟨before, a', after, rfl, hbefore, ha'⟩ := ih hrest
        exact ⟨a :: before, a', after, rfl, List.forall_mem_cons.2 ⟨⟨b, ha⟩, hbefore⟩, ha'⟩

/-- **A fault points at the culprit.** If a program has no script because of
a fault, then this is the fault of the first of its statements that has no
lines on its own. The fault points at a position of this statement that is
to blame: it has its span, it has the operator and the span of an operation,
or it names the module of an import. No other fault is possible. -/
theorem Program.fault_points_at_culprit (options : Options) (texts : String → Option String)
    (p : Program) (fault : Fault) (h : p.chunks (.inMemory options texts) = .error fault) :
    ∃ before s after, p.body = before ++ s :: after
      ∧ (∀ s' ∈ before, Accepted (outcome (s'.emit (.inMemory options texts)) {}))
      ∧ outcome (s.emit (.inMemory options texts)) {} = .error fault
      ∧ ∃ x ∈ s.positions false, fault.PointsAt x ∧ x.ToBlame (.inMemory options texts) := by
  have hchunks : outcome (Stmt.chunks (.inMemory options texts) p.body) {} = .error fault := h
  rw [Stmt.outcome_chunks_eq_mapM] at hchunks
  have hfirst : (p.body.mapM fun s => outcome (s.emit (.inMemory options texts)) {})
      = .error fault := by
    generalize (p.body.mapM fun s => outcome (s.emit (.inMemory options texts)) {}) = x at *
    cases x with
    | ok lines => cases hchunks
    | error e =>
      cases hchunks
      rfl
  obtain ⟨before, s, after, hbody, hbefore, hs⟩ := exists_first_error hfirst
  have hw := Setting.lacksOnly_inMemory options texts
  exact ⟨before, s, after, hbody, hbefore, hs, (s.accusing_all hw {}).1 fault hs⟩

/-- The program
```
f();
function g(a) { if (a) { h(a >>> 1); } }
break;
```
which has no script for two reasons. -/
def lateShift : Program :=
  let shift : Expr := .binary .shiftRightUnsigned (.identifier "a" ⟨32, 33⟩)
    (.literal (.number "1") ⟨38, 39⟩) ⟨32, 39⟩
  let consequent : Stmt := .block
    [.expression (.call (.identifier "h" ⟨30, 31⟩) [shift] ⟨30, 40⟩) ⟨30, 41⟩] ⟨28, 43⟩
  { body := [.expression (.call (.identifier "f" ⟨0, 1⟩) [] ⟨0, 3⟩) ⟨0, 4⟩,
      .function "g" [.identifier "a" ⟨16, 17⟩]
        [.branch (.identifier "a" ⟨25, 26⟩) consequent none ⟨21, 43⟩] ⟨5, 45⟩,
      .exit ⟨46, 52⟩]
    span := ⟨0, 52⟩ }

theorem lateShift_points_at_shift :
    ∃ target, lateShift.chunks (.inMemory {} fun _ => none)
        = .error (.invalidOperator .shiftRightUnsigned target ⟨32, 39⟩)
      ∧ ∃ before s after, lateShift.body = before ++ s :: after
        ∧ (∀ s' ∈ before, Accepted (outcome (s'.emit (.inMemory {} fun _ => none)) {}))
        ∧ outcome (s.emit (.inMemory {} fun _ => none)) {}
          = .error (.invalidOperator .shiftRightUnsigned target ⟨32, 39⟩)
        ∧ ∃ x ∈ s.positions false,
          (Fault.invalidOperator .shiftRightUnsigned target ⟨32, 39⟩).PointsAt x
            ∧ x.ToBlame (.inMemory {} fun _ => none) :=
  ⟨_, rfl, Program.fault_points_at_culprit {} (fun _ => none) lateShift _ rfl⟩

end ScriptToShell
