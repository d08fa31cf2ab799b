import ScriptToShell.Proofs.Plain

/-!
# Operands

The expressions that a program computes with are its **operands**: what is
passed to a command, compared, added, tested, assigned or returned. Each
position of a program has the operands directly below it
(`Position.operands`), together with what they are used for. Two kinds of
expressions are none: the name of a command that is called, and the object
whose methods print. Every other expression of a program is among its operands
(`Program.exists_operand`).
-/

namespace ScriptToShell

/-! ## Operands of a position -/

/-- **What an operand is used for.** -/
inductive Usage where
  /-- It is a word. -/
  | word
  /-- It is an argument of a command that is called by its name. -/
  | argument
  /-- It is tested. -/
  | test
deriving DecidableEq, Repr

/-- **An occurrence of an expression as an operand.** -/
structure Occurrence where
  /-- The expression. -/
  expr : Expr
  /-- What it is used for. -/
  usage : Usage

namespace Expr

/-- Whether an expression is a name. -/
def isIdentifier : Expr → Bool
  | .identifier .. => true
  | _ => false

/-- Whether an expression is the object whose methods print. -/
def isConsole : Expr → Bool
  | .identifier name _ => name = "console"
  | _ => false

end Expr

/-- Whether a literal is a number that may stand bare. -/
def Literal.isBare : Literal → Bool
  | .number n => Numeral.isBare n
  | _ => false

/-- **The operands directly below a position.** The name of a command is none,
and neither is the object of a method that is called. -/
def Position.operands : Position → List Occurrence
  | .expression (.binary _ left right _) _ => [⟨left, .word⟩, ⟨right, .word⟩]
  | .expression (.logical _ left right _) _ => [⟨left, .test⟩, ⟨right, .test⟩]
  | .expression (.not argument _) _ => [⟨argument, .test⟩]
  | .expression (.call callee arguments _) _ =>
    if callee.isIdentifier then arguments.map (⟨·, .argument⟩)
    else ⟨callee, .word⟩ :: arguments.map (⟨·, .word⟩)
  | .expression (.member object _ _) role =>
    if role = .callee ∧ object.isConsole then [] else [⟨object, .word⟩]
  | .statement (.expression value _) _ _ => [⟨value, .word⟩]
  | .statement (.branch test _ _ _) _ _ => [⟨test, .test⟩]
  | .statement (.ret argument _) _ _ => argument.toList.map (⟨·, .word⟩)
  | .statement (.declaration _ declarators _) _ _ =>
    (declarators.filterMap Declarator.init).map (⟨·, .word⟩)
  | .statement (.switch discriminant _ _) _ _ => [⟨discriminant, .word⟩]
  | .switchCase c _ => c.test.toList.map (⟨·, .word⟩)
  | _ => []

/-- **The operands of a program.** -/
def Program.operands (p : Program) : List Occurrence := p.positions.flatMap Position.operands

/-- Operands do not depend on where a case or a switch ends. -/
theorem Position.unflagged_operands (Q : Occurrence → Prop) :
    Unflagged fun x => ∀ o ∈ x.operands, Q o where
  statement {s _ _} _ h := by cases s <;> exact h
  switchCase _ h := h

/-! ## Nothing else is computed with -/

/-- Whether an expression is an operand in some role: the name of a command is
none, and neither is the object of a method that prints. -/
def Expr.isOperand (role : Role) (e : Expr) : Bool :=
  match role with
  | .callee => !e.isIdentifier
  | .object => !e.isConsole
  | .value | .condition => true

/-- A position that is listed among operands, if it is one. Those whose role is
a condition are tested. -/
def Position.Listed (operands : List Occurrence) : Position → Prop
  | .expression e role => e.isOperand role = true →
    ∃ usage, ⟨e, usage⟩ ∈ operands ∧ (usage = .test ↔ role = .condition)
  | _ => True

theorem Position.unflagged_listed (operands : List Occurrence) : Unflagged (Listed operands) :=
  ⟨fun _ _ => trivial, fun _ _ => trivial⟩

section Listed

variable {operands : List Occurrence}

theorem Position.listed_word {e : Expr} {role : Role} {usage : Usage} (h : ⟨e, usage⟩ ∈ operands)
    (htest : usage ≠ .test ∧ role ≠ .condition) :
    Position.Listed operands (.expression e role) :=
  fun _ => ⟨usage, h, iff_of_false htest.1 htest.2⟩

theorem Position.listed_test {e : Expr} (h : ⟨e, .test⟩ ∈ operands) :
    Position.Listed operands (.expression e .condition) :=
  fun _ => ⟨.test, h, iff_of_true rfl rfl⟩

/-- **The operands in an expression are listed**, below the expression itself. -/
theorem Expr.listed (e : Expr) : ∀ role,
    (∀ x ∈ e.positions role, ∀ o ∈ x.operands, o ∈ operands) →
    Position.Listed operands (.expression e role) →
    ∀ x ∈ e.positions role, x.Listed operands := by
  induction e using Expr.induction_on with
  | binary op left right span ihl ihr =>
    intro role h hown
    rw [positions_binary, List.forall_mem_cons, List.forall_mem_append] at h ⊢
    have hoperands := List.forall_mem_cons.1 h.1
    exact ⟨hown, ihl .value h.2.1 (Position.listed_word hoperands.1 (by decide)),
      ihr .value h.2.2
        (Position.listed_word (List.forall_mem_singleton.1 hoperands.2) (by decide))⟩
  | logical op left right span ihl ihr =>
    intro role h hown
    rw [positions_logical, List.forall_mem_cons, List.forall_mem_append] at h ⊢
    have hoperands := List.forall_mem_cons.1 h.1
    exact ⟨hown, ihl .condition h.2.1 (Position.listed_test hoperands.1),
      ihr .condition h.2.2 (Position.listed_test (List.forall_mem_singleton.1 hoperands.2))⟩
  | not argument span ih =>
    intro role h hown
    rw [positions_not, List.forall_mem_cons] at h ⊢
    exact ⟨hown, ih .condition h.2 (Position.listed_test (List.forall_mem_singleton.1 h.1))⟩
  | call callee arguments span ihc iha =>
    intro role h hown
    rw [positions_call, List.forall_mem_cons, List.forall_mem_append, forall_partsAll] at h ⊢
    have hoperands := h.1
    rw [Position.operands] at hoperands
    refine ⟨hown, ihc .callee h.2.1 fun hcallee => ?_, fun e he => iha e he .value (h.2.2 e he) ?_⟩
    · have hname : ¬callee.isIdentifier = true := by simpa [isOperand] using hcallee
      rw [if_neg hname, List.forall_mem_cons] at hoperands
      exact ⟨.word, hoperands.1, by decide⟩
    · split at hoperands
      · exact Position.listed_word (List.forall_mem_map.1 hoperands e he) (by decide)
      · exact Position.listed_word
          (List.forall_mem_map.1 (List.forall_mem_cons.1 hoperands).2 e he) (by decide)
  | member object property span ih =>
    intro role h hown
    rw [positions_member, List.forall_mem_cons] at h ⊢
    refine ⟨hown, ih .object h.2 fun hobject => ?_⟩
    have hconsole : ¬object.isConsole = true := by simpa [isOperand] using hobject
    have hoperands := h.1
    rw [Position.operands, if_neg fun hboth => hconsole hboth.2] at hoperands
    exact ⟨.word, List.forall_mem_singleton.1 hoperands, by decide⟩
  | _ => exact fun role _ hown => List.forall_mem_singleton.2 hown

theorem Stmt.listed (s : Stmt) : ∀ f,
    (∀ x ∈ s.positions f, ∀ o ∈ x.operands, o ∈ operands) →
    ∀ x ∈ s.positions f, x.Listed operands := by
  induction s using Stmt.induction_on with
  | block body span ih =>
    intro f h
    rw [forall_mem_positions_block] at h ⊢
    exact ⟨trivial, fun s hs => ih s hs f (h.2 s hs)⟩
  | expression value span =>
    intro f h
    rw [positions, parts, List.forall_mem_cons] at h ⊢
    exact ⟨trivial, value.listed .value h.2
      (Position.listed_word (List.forall_mem_singleton.1 h.1) (by decide))⟩
  | branch test consequent alternate span ihc iha =>
    intro f h
    rw [forall_mem_positions_branch] at h ⊢
    obtain ⟨hoperands, htest, hconsequent, halternate⟩ := h
    exact ⟨trivial,
      test.listed .condition htest (Position.listed_test (List.forall_mem_singleton.1 hoperands)),
      ihc f hconsequent, fun s hs => iha s hs f (halternate s hs)⟩
  | function name params body span ih =>
    intro f h
    rw [forall_mem_positions_function] at h ⊢
    exact ⟨trivial, List.forall_mem_map.2 fun _ _ => trivial, fun s hs => ih s hs true (h.2.2 s hs)⟩
  | ret argument span =>
    intro f h
    rw [positions, parts, List.forall_mem_cons, Expr.forall_positions?] at h ⊢
    refine ⟨trivial, fun e he => e.listed .value (h.2 e he) ?_⟩
    exact Position.listed_word
      (List.forall_mem_map.1 h.1 e (Option.mem_toList.2 he)) (by decide)
  | declaration kind declarators span =>
    intro f h
    rw [positions, parts, List.forall_mem_cons, List.forall_mem_flatMap] at h ⊢
    refine ⟨trivial, fun d hd => List.forall_mem_cons.2 ⟨trivial, ?_⟩⟩
    have hinit := Expr.forall_positions?.1 (List.forall_mem_cons.1 (h.2 d hd)).2
    refine Expr.forall_positions?.2 fun e he => e.listed .value (hinit e he) ?_
    exact Position.listed_word
      (List.forall_mem_map.1 h.1 e (List.mem_filterMap.2 ⟨d, hd, he⟩)) (by decide)
  | switch discriminant cases span ih =>
    intro f h
    rw [forall_mem_positions_switch (Position.unflagged_operands _)] at h
    rw [forall_mem_positions_switch (Position.unflagged_listed operands)]
    obtain ⟨hoperands, hdiscriminant, hcases⟩ := h
    refine ⟨trivial, discriminant.listed .value hdiscriminant
      (Position.listed_word (List.forall_mem_singleton.1 hoperands) (by decide)), fun c hc => ?_⟩
    obtain ⟨hoperands, htest, hconsequent⟩ := hcases c hc
    refine ⟨trivial, Expr.forall_positions?.2 fun e he => ?_, fun s hs => ?_⟩
    · have hword := List.forall_mem_map.1 hoperands e (Option.mem_toList.2 he)
      exact e.listed .value (Expr.forall_positions?.1 htest e he)
        (Position.listed_word hword (by decide))
    · exact ih c hc s hs f (hconsequent s hs)
  | _ =>
    intro f _
    rw [positions, parts]
    exact List.forall_mem_singleton.2 trivial

end Listed

/-- **Every expression of a program is one of its operands**, but for the names of
commands and the object whose methods print. -/
theorem Program.exists_operand {p : Program} {e : Expr} {role : Role}
    (h : .expression e role ∈ p.positions) (hoperand : e.isOperand role = true) :
    ∃ usage, ⟨e, usage⟩ ∈ p.operands ∧ (usage = .test ↔ role = .condition) := by
  have hall : ∀ s ∈ p.body, ∀ x ∈ s.positions false, ∀ o ∈ x.operands, o ∈ p.operands :=
    Stmt.forall_partsAll.1 fun x hx o ho => List.mem_flatMap.2 ⟨x, hx, ho⟩
  exact Stmt.forall_partsAll.2 (fun s hs => s.listed false (hall s hs)) _ h hoperand

end ScriptToShell
