import ScriptToShell.Emit.Script

/-!
# What an emission yields

While statements are written the nesting moves up and down, and a fault
may strike at any depth. Still nothing of this can be seen from outside:
an emission leaves the nesting as it found it, whether or not it succeeds
(`Emission.Restores`). So all that counts of an emission is its
**outcome** from a nesting, and the outcome of a sequence is the sequence
of the outcomes, all from one and the same nesting
(`Emission.outcome_bind`).

The second half of this module says this of statements. Each equation
gives the outcome of a statement by the outcomes of its parts, so that
what is proved of scripts later on is proved from these equations.

From this it follows that a nesting can be shared. Whatever is written with
it, one thing behind the other and faults included, comes out as if it had
a nesting of its own (`Task.nesting_shared`).
-/

namespace ScriptToShell

namespace Emission

variable {α β : Type}

/-! ## Runs -/

/-- A run goes on with the result of its first part. -/
theorem runFrom_bind_ok {m : Emission α} (f : α → Emission β) {n n' : Nesting} {a : α}
    (h : m.runFrom n = (.ok a, n')) : (m >>= f).runFrom n = (f a).runFrom n' := by
  unfold runFrom at *
  rw [ExceptT.run_bind, StateT.run_bind, h]
  rfl

/-- A run ends with the fault of its first part. -/
theorem runFrom_bind_error {m : Emission α} (f : α → Emission β) {n n' : Nesting} {fault : Fault}
    (h : m.runFrom n = (.error fault, n')) : (m >>= f).runFrom n = (.error fault, n') := by
  unfold runFrom at *
  rw [ExceptT.run_bind, StateT.run_bind, h]
  rfl

/-- **The outcome of an emission** from a nesting. -/
def outcome (m : Emission α) (n : Nesting) : Except Fault α := (m.runFrom n).1

/-- **An emission that leaves the nesting as it found it**, also when it
fails. -/
def Restores (m : Emission α) : Prop := ∀ n, (m.runFrom n).2 = n

@[simp] theorem restores_pure (a : α) : Restores (pure a) := fun _ => rfl

@[simp] theorem restores_throw (fault : Fault) : Restores (throw fault : Emission α) := fun _ => rfl

@[simp] theorem restores_lift (x : Except Fault α) : Restores (liftM x : Emission α) := fun _ => rfl

@[simp] theorem restores_get : Restores (get : Emission Nesting) := fun _ => rfl

theorem restores_bind {m : Emission α} {f : α → Emission β} (hm : Restores m)
    (hf : ∀ a, Restores (f a)) : Restores (m >>= f) := by
  intro n
  have h := hm n
  rcases hr : m.runFrom n with ⟨fault | a, n'⟩
  · rw [runFrom_bind_error f hr]
    rw [hr] at h
    exact h
  · rw [hr] at h
    obtain rfl : n' = n := h
    rw [runFrom_bind_ok f hr]
    exact hf a n'

/-- A level that is left the way it was entered restores the nesting. -/
theorem restores_between {enter leave : Nesting → Nesting} (h : ∀ n, leave (enter n) = n)
    {m : Emission α} (hm : Restores m) : Restores (between enter leave m) := by
  intro n
  show leave (m.runFrom (enter n)).2 = n
  rw [hm (enter n), h]

theorem restores_insideIf {m : Emission α} (hm : Restores m) : Restores (insideIf m) :=
  restores_between (fun _ => rfl) hm

theorem restores_insideFunction {m : Emission α} (hm : Restores m) : Restores (insideFunction m) :=
  restores_between (fun _ => rfl) hm

theorem restores_insideSwitch {m : Emission α} (hm : Restores m) : Restores (insideSwitch m) :=
  restores_between (fun _ => rfl) hm

/-! ## Outcomes -/

@[simp] theorem outcome_pure (a : α) (n : Nesting) : outcome (pure a) n = .ok a := rfl

@[simp] theorem outcome_lift (x : Except Fault α) (n : Nesting) :
    outcome (liftM x : Emission α) n = x := rfl

@[simp] theorem outcome_get (n : Nesting) : outcome get n = .ok n := rfl

/-- **The outcome of a sequence** is the sequence of the outcomes. -/
theorem outcome_bind {m : Emission α} (hm : Restores m) (f : α → Emission β) (n : Nesting) :
    outcome (m >>= f) n = outcome m n >>= fun a => outcome (f a) n := by
  have h := hm n
  unfold outcome
  rcases hr : m.runFrom n with ⟨fault | a, n'⟩
  · rw [runFrom_bind_error f hr]
    rfl
  · rw [hr] at h
    obtain rfl : n' = n := h
    rw [runFrom_bind_ok f hr]
    rfl

end Emission

/-- The nesting inside one more conditional. -/
def Nesting.inIf (n : Nesting) : Nesting := { n with ifs := n.ifs + 1 }

/-- The nesting inside one more function. -/
def Nesting.inFunction (n : Nesting) : Nesting := { n with functions := n.functions + 1 }

/-- The nesting inside one more switch. -/
def Nesting.inSwitch (n : Nesting) : Nesting := { n with switches := n.switches + 1 }

namespace Emission

variable {α : Type}

@[simp] theorem outcome_insideIf (m : Emission α) (n : Nesting) :
    outcome (insideIf m) n = outcome m n.inIf := rfl

@[simp] theorem outcome_insideFunction (m : Emission α) (n : Nesting) :
    outcome (insideFunction m) n = outcome m n.inFunction := rfl

@[simp] theorem outcome_insideSwitch (m : Emission α) (n : Nesting) :
    outcome (insideSwitch m) n = outcome m n.inSwitch := rfl

end Emission

/-! ## Induction over statements -/

/-- **Induction over statements.** What holds of a statement as soon as it
holds of the statements directly inside it holds of every statement. -/
@[elab_as_elim]
theorem Stmt.induction_on {P : Stmt → Prop} (s : Stmt)
    (block : ∀ body span, (∀ s ∈ body, P s) → P (.block body span))
    (empty : ∀ span, P (.empty span))
    (expression : ∀ value span, P (.expression value span))
    (branch : ∀ test consequent alternate span, P consequent → (∀ s ∈ alternate, P s) →
      P (.branch test consequent alternate span))
    (function : ∀ name params body span, (∀ s ∈ body, P s) → P (.function name params body span))
    (ret : ∀ argument span, P (.ret argument span))
    (declaration : ∀ kind declarators span, P (.declaration kind declarators span))
    (switch : ∀ discriminant cases span, (∀ c ∈ cases, ∀ s ∈ SwitchCase.consequent c, P s) →
      P (.switch discriminant cases span))
    (importModule : ∀ source span, P (.importModule source span))
    (exit : ∀ span, P (.exit span))
    (unsupported : ∀ kind span, P (.unsupported kind span)) : P s :=
  @Stmt.rec P (fun c => ∀ s ∈ c.consequent, P s) (fun body => ∀ s ∈ body, P s)
    (fun alternate => ∀ s ∈ alternate, P s) (fun cases => ∀ c ∈ cases, ∀ s ∈ c.consequent, P s)
    block empty expression branch function ret declaration switch importModule exit unsupported
    (fun _ _ _ h => h)
    (fun _ h => absurd h List.not_mem_nil)
    (fun _ _ hs hbody => List.forall_mem_cons.2 ⟨hs, hbody⟩)
    (fun _ h => by cases h)
    (fun _ hs _ h => by cases h; exact hs)
    (fun _ h => absurd h List.not_mem_nil)
    (fun _ _ hc hcases => List.forall_mem_cons.2 ⟨hc, hcases⟩)
    s

/-! ## Statements restore the nesting -/

open Emission Emit

namespace Stmt

-- where there is nothing to write, nothing is written
section Nothing

variable (w : Setting)

example (span : Span) : (Stmt.empty span).emit w = pure [] := by rw [emit]

example : emitAll w [] = pure [] := by rw [emitAll]

example : emitAlternate w none = pure [] := by rw [emitAlternate]

example : emitFunction w [] = pure [] := by rw [emitFunction]

example : emitCase w [] = pure [] := by rw [emitCase]

end Nothing

/-- Among the statements of a function, the first gives its value or there is
nothing special about it. -/
theorem lastReturn_or (s : Stmt) (ss : List Stmt) :
    (∃ value span, s = .ret (some value) span ∧ ss = [])
      ∨ ∀ value span, s = .ret (some value) span → ss ≠ [] := by
  by_cases h : ∃ value span, s = .ret (some value) span ∧ ss = []
  · exact .inl h
  · exact .inr fun value span hs hss => h ⟨value, span, hs, hss⟩

/-- Among the statements of a case, the first is a `break` at the end or
there is nothing special about it. -/
theorem lastExit_or (s : Stmt) (ss : List Stmt) :
    (∃ span, s = .exit span ∧ ss = []) ∨ ∀ span, s = .exit span → ss ≠ [] := by
  by_cases h : ∃ span, s = .exit span ∧ ss = []
  · exact .inl h
  · exact .inr fun span hs hss => h ⟨span, hs, hss⟩

/-- The alternate of a conditional goes on with it, or is an `else`. -/
theorem emitAlternate_some (w : Setting) (s : Stmt) :
    (∃ test consequent alternate span, s = .branch test consequent alternate span)
      ∨ emitAlternate w (some s) = (do
          let lines ← s.emit w
          return "else" :: body w.options.indent lines) := by
  by_cases h : ∃ test consequent alternate span, s = .branch test consequent alternate span
  · exact .inl h
  · exact .inr (emitAlternate.eq_3 w s fun t c a span hs => h ⟨t, c, a, span, hs⟩)

variable {w : Setting}

theorem restores_emitAll {stmts : List Stmt} (h : ∀ s ∈ stmts, Restores (s.emit w)) :
    Restores (emitAll w stmts) := by
  induction stmts with
  | nil =>
    rw [emitAll]
    exact restores_pure []
  | cons s ss ih =>
    rw [List.forall_mem_cons] at h
    rw [emitAll]
    exact restores_bind h.1 fun _ => restores_bind (ih h.2) fun _ => restores_pure _

theorem restores_emitFunction {stmts : List Stmt} (h : ∀ s ∈ stmts, Restores (s.emit w)) :
    Restores (emitFunction w stmts) := by
  induction stmts with
  | nil =>
    rw [emitFunction]
    exact restores_pure []
  | cons s ss ih =>
    rw [List.forall_mem_cons] at h
    obtain ⟨value, span, rfl, rfl⟩ | hcons := lastReturn_or s ss
    · rw [emitFunction]
      exact restores_bind (restores_lift _) fun _ => restores_pure _
    · rw [emitFunction.eq_3 w s ss hcons]
      exact restores_bind h.1 fun _ => restores_bind (ih h.2) fun _ => restores_pure _

theorem restores_emitCase {stmts : List Stmt} (h : ∀ s ∈ stmts, Restores (s.emit w)) :
    Restores (emitCase w stmts) := by
  induction stmts with
  | nil =>
    rw [emitCase]
    exact restores_pure []
  | cons s ss ih =>
    rw [List.forall_mem_cons] at h
    obtain ⟨span, rfl, rfl⟩ | hcons := lastExit_or s ss
    · rw [emitCase]
      exact restores_pure []
    · rw [emitCase.eq_3 w s ss hcons]
      exact restores_bind h.1 fun _ => restores_bind (ih h.2) fun _ => restores_pure _

end Stmt

theorem SwitchCase.restores_emitAll {w : Setting} {cases : List SwitchCase}
    (h : ∀ c ∈ cases, ∀ s ∈ SwitchCase.consequent c, Restores (s.emit w))
    (labels : List String) (hasDefault : Bool) :
    Restores (SwitchCase.emitAll w labels hasDefault cases) := by
  induction cases generalizing labels hasDefault with
  | nil =>
    rw [SwitchCase.emitAll]
    exact restores_pure _
  | cons c rest ih =>
    rw [List.forall_mem_cons] at h
    obtain ⟨test, consequent, span⟩ := c
    rw [SwitchCase.emitAll]
    refine restores_bind (restores_lift _) fun label => ?_
    dsimp only
    split
    · exact ih h.2 _ _
    · split
      · exact restores_bind (restores_throw _) fun _ => restores_bind
          (Stmt.restores_emitCase h.1) fun _ => restores_bind (ih h.2 _ _) fun _ => by
            split <;> exact restores_pure _
      · exact restores_bind (Stmt.restores_emitCase h.1) fun _ =>
          restores_bind (ih h.2 _ _) fun _ => by split <;> exact restores_pure _

/-- As an alternate, a statement that is no conditional emits what it
emits on its own. -/
theorem Stmt.restores_and_of_ne_branch {w : Setting} {s : Stmt}
    (hs : ∀ test consequent alternate span, s ≠ .branch test consequent alternate span)
    (h : Restores (s.emit w)) :
    Restores (s.emit w) ∧ Restores (Stmt.emitAlternate w (some s)) := by
  refine ⟨h, ?_⟩
  rcases Stmt.emitAlternate_some w s with ⟨t, c, a, span, hbranch⟩ | heq
  · exact absurd hbranch (hs t c a span)
  · rw [heq]
    exact restores_bind h fun _ => restores_pure _

/-- What a statement emits and what it emits as an alternate restore the
nesting. An alternate that is a conditional is not emitted itself, so the
induction carries both. -/
theorem Stmt.restores_emit_and (w : Setting) (s : Stmt) :
    Restores (s.emit w) ∧ Restores (Stmt.emitAlternate w (some s)) := by
  induction s using Stmt.induction_on with
  | block body span ih =>
    refine Stmt.restores_and_of_ne_branch nofun ?_
    rw [Stmt.emit]
    exact Stmt.restores_emitAll fun s hs => (ih s hs).1
  | empty span =>
    refine Stmt.restores_and_of_ne_branch nofun ?_
    rw [Stmt.emit]
    exact restores_pure _
  | expression value span =>
    refine Stmt.restores_and_of_ne_branch nofun ?_
    unfold Stmt.emit
    split
    · exact restores_bind (restores_lift _) fun _ => restores_pure _
    · exact restores_bind (restores_lift _) fun _ => restores_pure _
    · exact restores_throw _
  | branch test consequent alternate span hconsequent halternate =>
    -- as an alternate it is an `elif`, written without a level of its own
    have hrest : Restores (Stmt.emitAlternate w alternate) := by
      cases alternate with
      | none =>
        rw [Stmt.emitAlternate]
        exact restores_pure _
      | some s => exact (halternate s rfl).2
    constructor
    · rw [Stmt.emit]
      exact restores_insideIf <| restores_bind restores_get fun _ =>
        restores_bind (restores_lift _) fun _ => restores_bind hconsequent.1 fun _ =>
          restores_bind hrest fun _ => restores_pure _
    · rw [Stmt.emitAlternate]
      exact restores_bind (restores_lift _) fun _ => restores_bind hconsequent.1 fun _ =>
        restores_bind hrest fun _ => restores_pure _
  | function name params body span ih =>
    refine Stmt.restores_and_of_ne_branch nofun ?_
    rw [Stmt.emit]
    exact restores_insideFunction <| restores_bind (restores_lift _) fun _ =>
      restores_bind (Stmt.restores_emitFunction fun s hs => (ih s hs).1) fun _ => restores_pure _
  | ret argument span =>
    refine Stmt.restores_and_of_ne_branch nofun ?_
    cases argument <;> rw [Stmt.emit] <;> refine restores_bind restores_get fun _ => ?_ <;>
      dsimp only <;> split
    · exact restores_bind (restores_throw _) fun _ => restores_pure _
    · exact restores_pure _
    · exact restores_bind (restores_throw _) fun _ => restores_bind (restores_lift _) fun _ =>
        restores_pure _
    · exact restores_bind (restores_lift _) fun _ => restores_pure _
  | declaration kind declarators span =>
    refine Stmt.restores_and_of_ne_branch nofun ?_
    rw [Stmt.emit]
    exact restores_lift _
  | switch discriminant cases span ih =>
    refine Stmt.restores_and_of_ne_branch nofun ?_
    rw [Stmt.emit]
    exact restores_insideSwitch <| restores_bind (restores_lift _) fun _ => restores_bind
      (SwitchCase.restores_emitAll (fun c hc s hs => (ih c hc s hs).1) _ _) fun _ =>
        restores_pure _
  | importModule source span =>
    refine Stmt.restores_and_of_ne_branch nofun ?_
    rw [Stmt.emit]
    exact restores_bind (restores_lift _) fun _ => restores_pure _
  | exit span =>
    refine Stmt.restores_and_of_ne_branch nofun ?_
    rw [Stmt.emit]
    refine restores_bind restores_get fun _ => ?_
    split <;> exact restores_throw _
  | unsupported kind span =>
    refine Stmt.restores_and_of_ne_branch nofun ?_
    rw [Stmt.emit]
    exact restores_throw _

@[simp] theorem Stmt.emit_restores (w : Setting) (s : Stmt) : Restores (s.emit w) :=
  (Stmt.restores_emit_and w s).1

@[simp] theorem Stmt.emitAll_restores (w : Setting) (stmts : List Stmt) :
    Restores (Stmt.emitAll w stmts) :=
  Stmt.restores_emitAll fun s _ => s.emit_restores w

@[simp] theorem Stmt.emitFunction_restores (w : Setting) (stmts : List Stmt) :
    Restores (Stmt.emitFunction w stmts) :=
  Stmt.restores_emitFunction fun s _ => s.emit_restores w

@[simp] theorem Stmt.emitCase_restores (w : Setting) (stmts : List Stmt) :
    Restores (Stmt.emitCase w stmts) :=
  Stmt.restores_emitCase fun s _ => s.emit_restores w

@[simp] theorem SwitchCase.emitAll_restores (w : Setting) (labels : List String)
    (hasDefault : Bool) (cases : List SwitchCase) :
    Restores (SwitchCase.emitAll w labels hasDefault cases) :=
  SwitchCase.restores_emitAll (fun _ _ s _ => s.emit_restores w) labels hasDefault

@[simp] theorem Stmt.emitAlternate_restores (w : Setting) (alternate : Option Stmt) :
    Restores (Stmt.emitAlternate w alternate) := by
  cases alternate with
  | none =>
    rw [Stmt.emitAlternate]
    exact restores_pure _
  | some s => exact (Stmt.restores_emit_and w s).2

/-! ## The outcomes of statements -/

namespace Stmt

variable (w : Setting) (n : Nesting)

theorem outcome_block (body : List Stmt) (span : Span) :
    outcome ((Stmt.block body span).emit w) n = outcome (emitAll w body) n := by
  rw [emit]

theorem outcome_empty (span : Span) : outcome ((Stmt.empty span).emit w) n = .ok [] := by
  rw [emit]
  rfl

theorem outcome_expression (value : Expr) (span : Span) :
    outcome ((Stmt.expression value span).emit w) n
      = match value with
        | .call .. | .unsupported .. => (value.text w.options.target).map splitText
        | _ => .error (.notSupportedFor .expressionStatement
            ("a bare `" ++ value.kind.name ++ "` is not a command") span) := by
  cases value with
  | call callee arguments s =>
    rw [emit, outcome_bind (restores_lift _)]
    rfl
  | unsupported kind s =>
    rw [emit, outcome_bind (restores_lift _)]
    rfl
  | _ =>
    rw [emit]
    · rfl
    · exact nofun
    · exact nofun

theorem outcome_branch (test : Expr) (consequent : Stmt) (alternate : Option Stmt) (span : Span) :
    outcome ((Stmt.branch test consequent alternate span).emit w) n = (do
      let t ← test.condition w.options.target
      let lines ← outcome (consequent.emit w) n.inIf
      let rest ← outcome (emitAlternate w alternate) n.inIf
      return framed (n.inIf.ifs = 1)
        (("if " ++ t ++ "; then") :: body w.options.indent lines ++ rest ++ ["fi"])) := by
  rw [emit, outcome_insideIf, outcome_bind restores_get]
  simp only [outcome_bind, restores_lift, emit_restores, emitAlternate_restores, outcome_lift,
    outcome_pure, outcome_get]
  rfl

theorem outcome_function (name : String) (params : List Pattern) (stmts : List Stmt)
    (span : Span) :
    outcome ((Stmt.function name params stmts span).emit w) n = (do
      let locals ← bindings name 1 params
      let lines ← outcome (emitFunction w stmts) n.inFunction
      return (name ++ "() \x7b") :: body w.options.indent (locals ++ lines) ++ ["\x7d", ""]) := by
  rw [emit, outcome_insideFunction]
  simp only [outcome_bind, restores_lift, emitFunction_restores, outcome_lift, outcome_pure]
  rfl

theorem outcome_ret (argument : Option Expr) (span : Span) :
    outcome ((Stmt.ret argument span).emit w) n
      = if n.functions = 0 then
          .error (.notSupportedFor .returnStatement "`return` outside a function" span)
        else match argument with
          | some value => (echoLine w.options.target value).map ([·, "return"])
          | none => .ok ["return"] := by
  cases argument with
  | none =>
    rw [emit, outcome_bind restores_get]
    show outcome (if n.functions = 0 then _ else _) n = _
    split <;> rfl
  | some value =>
    rw [emit, outcome_bind restores_get]
    show outcome (if n.functions = 0 then _ else _) n = _
    split
    · rfl
    · rw [outcome_bind (restores_lift _)]
      rfl

theorem outcome_declaration (kind : DeclKind) (declarators : List Declarator) (span : Span) :
    outcome ((Stmt.declaration kind declarators span).emit w) n
      = declarators.mapM (declaratorLine w.options.target) := by
  rw [emit]
  rfl

theorem outcome_switch (discriminant : Expr) (cases : List SwitchCase) (span : Span) :
    outcome ((Stmt.switch discriminant cases span).emit w) n = (do
      let d ← discriminant.value w.options.target
      let (arms, default) ← outcome (SwitchCase.emitAll w [] false cases) n.inSwitch
      return ("case " ++ d ++ " in") :: arms ++ default.getD [] ++ ["esac"]) := by
  rw [emit, outcome_insideSwitch]
  simp only [outcome_bind, restores_lift, SwitchCase.emitAll_restores, outcome_lift, outcome_pure]
  rfl

theorem outcome_importModule (source : String) (span : Span) :
    outcome ((Stmt.importModule source span).emit w) n = (w.modules source).map spliced := by
  rw [emit, outcome_bind (restores_lift _)]
  rfl

theorem outcome_exit (span : Span) :
    outcome ((Stmt.exit span).emit w) n
      = .error (.notSupportedFor .breakStatement
          (if 0 < n.switches then "`break` may only end a switch case"
            else "`break` outside a switch") span) := by
  rw [emit, outcome_bind restores_get]
  show outcome (if 0 < n.switches then _ else _) n = _
  split <;> rfl

theorem outcome_unsupported (kind : NodeKind) (span : Span) :
    outcome ((Stmt.unsupported kind span).emit w) n = .error (.notSupported kind span) := by
  rw [emit]
  rfl

theorem outcome_emitAll_nil : outcome (emitAll w []) n = .ok [] := by
  rw [emitAll]
  rfl

theorem outcome_emitAll_cons (s : Stmt) (ss : List Stmt) :
    outcome (emitAll w (s :: ss)) n = (do
      let lines ← outcome (s.emit w) n
      let rest ← outcome (emitAll w ss) n
      return lines ++ rest) := by
  rw [emitAll]
  simp only [outcome_bind, emit_restores, emitAll_restores, outcome_pure]
  rfl

theorem outcome_emitAlternate_none : outcome (emitAlternate w none) n = .ok [] := by
  rw [emitAlternate]
  rfl

theorem outcome_emitAlternate_branch (test : Expr) (consequent : Stmt) (alternate : Option Stmt)
    (span : Span) :
    outcome (emitAlternate w (some (.branch test consequent alternate span))) n = (do
      let t ← test.condition w.options.target
      let lines ← outcome (consequent.emit w) n
      let rest ← outcome (emitAlternate w alternate) n
      return ("elif " ++ t ++ "; then") :: body w.options.indent lines ++ rest) := by
  rw [emitAlternate]
  simp only [outcome_bind, restores_lift, emit_restores, emitAlternate_restores, outcome_lift,
    outcome_pure]
  rfl

theorem outcome_emitAlternate_else {s : Stmt}
    (hs : ∀ test consequent alternate span, s ≠ .branch test consequent alternate span) :
    outcome (emitAlternate w (some s)) n
      = (outcome (s.emit w) n).map fun lines => "else" :: body w.options.indent lines := by
  rcases emitAlternate_some w s with ⟨t, c, a, span, hbranch⟩ | heq
  · exact absurd hbranch (hs t c a span)
  · rw [heq, outcome_bind (emit_restores w s)]
    rfl

theorem outcome_emitFunction_nil : outcome (emitFunction w []) n = .ok [] := by
  rw [emitFunction]
  rfl

theorem outcome_emitFunction_ret (value : Expr) (span : Span) :
    outcome (emitFunction w [.ret (some value) span]) n
      = (echoLine w.options.target value).map ([·]) := by
  rw [emitFunction, outcome_bind (restores_lift _)]
  rfl

theorem outcome_emitFunction_cons {s : Stmt} {ss : List Stmt}
    (h : ∀ value span, s = .ret (some value) span → ss ≠ []) :
    outcome (emitFunction w (s :: ss)) n = (do
      let lines ← outcome (s.emit w) n
      let rest ← outcome (emitFunction w ss) n
      return lines ++ rest) := by
  rw [emitFunction.eq_3 w s ss h]
  simp only [outcome_bind, emit_restores, emitFunction_restores, outcome_pure]
  rfl

theorem outcome_emitCase_nil : outcome (emitCase w []) n = .ok [] := by
  rw [emitCase]
  rfl

theorem outcome_emitCase_exit (span : Span) : outcome (emitCase w [.exit span]) n = .ok [] := by
  rw [emitCase]
  rfl

theorem outcome_emitCase_cons {s : Stmt} {ss : List Stmt}
    (h : ∀ span, s = .exit span → ss ≠ []) :
    outcome (emitCase w (s :: ss)) n = (do
      let lines ← outcome (s.emit w) n
      let rest ← outcome (emitCase w ss) n
      return lines ++ rest) := by
  rw [emitCase.eq_3 w s ss h]
  simp only [outcome_bind, emit_restores, emitCase_restores, outcome_pure]
  rfl

theorem chunks_restores (stmts : List Stmt) : Restores (chunks w stmts) := by
  induction stmts with
  | nil =>
    rw [chunks]
    exact restores_pure _
  | cons s ss ih =>
    rw [chunks]
    exact restores_bind (s.emit_restores w) fun _ => restores_bind ih fun _ => restores_pure _

theorem outcome_chunks_nil : outcome (chunks w []) n = .ok [] := by
  rw [chunks]
  rfl

theorem outcome_chunks_cons (s : Stmt) (ss : List Stmt) :
    outcome (chunks w (s :: ss)) n = (do
      let lines ← outcome (s.emit w) n
      let rest ← outcome (chunks w ss) n
      return Text.joinWith "\n" lines :: rest) := by
  rw [chunks]
  simp only [outcome_bind, emit_restores, chunks_restores, outcome_pure]
  rfl

end Stmt

namespace SwitchCase

variable (w : Setting) (n : Nesting)

theorem outcome_emitAll_nil (labels : List String) (hasDefault : Bool) :
    outcome (SwitchCase.emitAll w labels hasDefault []) n = .ok ([], none) := by
  rw [SwitchCase.emitAll]
  rfl

/-- **The arms from a case on.** A case without statements shares the arm
of the next one; a case that runs into the next one has no arm. -/
theorem outcome_emitAll_cons (labels : List String) (hasDefault : Bool) (test : Option Expr)
    (consequent : List Stmt) (span : Span) (rest : List SwitchCase) :
    outcome (SwitchCase.emitAll w labels hasDefault (.mk test consequent span :: rest)) n = (do
      let label ← caseLabel w.options.target test
      if consequent.isEmpty && !rest.isEmpty then
        outcome (SwitchCase.emitAll w (labels ++ [label]) (hasDefault || test.isNone) rest) n
      else if !consequent.isEmpty && !endsCase consequent && !rest.isEmpty then
        .error (.notSupportedFor .switchCase
          "fall-through into the next case; end the case with `break`" span)
      else do
        let lines ← outcome (Stmt.emitCase w consequent) n
        let own := arm w.options.indent (labels ++ [label]) lines
        let (arms, default) ← outcome (SwitchCase.emitAll w [] false rest) n
        return if hasDefault || test.isNone then (arms, default.or (some own))
          else (own ++ arms, default)) := by
  rw [SwitchCase.emitAll, outcome_bind (restores_lift _), outcome_lift]
  refine congrArg _ (funext fun label => ?_)
  dsimp only
  split
  · rfl
  · split
    · rw [outcome_bind (restores_throw _)]
      rfl
    · simp only [outcome_bind, Stmt.emitCase_restores, SwitchCase.emitAll_restores]
      refine congrArg _ (funext fun lines => congrArg _ (funext fun arms => ?_))
      split <;> rfl

end SwitchCase

/-! ## One nesting for all -/

namespace Emission

variable {α : Type}

theorem Restores.runFrom_eq {m : Emission α} (h : Restores m) (n : Nesting) :
    m.runFrom n = (outcome m n, n) := Prod.ext rfl (h n)

/-- **Emissions one behind the other.** Each starts from the nesting that
the one before it has left, whether or not that one has failed. -/
def runEach : List (Emission α) → Nesting → List (Except Fault α) × Nesting
  | [], n => ([], n)
  | m :: ms, n =>
    let (first, n₁) := m.runFrom n
    let (rest, n₂) := runEach ms n₁
    (first :: rest, n₂)

/-- Emissions that restore the nesting do not notice each other. -/
theorem runEach_eq {ms : List (Emission α)} (h : ∀ m ∈ ms, Restores m) (n : Nesting) :
    runEach ms n = (ms.map (outcome · n), n) := by
  induction ms with
  | nil => rfl
  | cons m ms ih =>
    rw [List.forall_mem_cons] at h
    rw [runEach, h.1.runFrom_eq n]
    dsimp only
    rw [ih h.2, List.map_cons]

end Emission

/-- What is gathered from the outcomes for a list comes first from its
head, then from the rest. -/
theorem map_mapM_cons {α β γ : Type} (f : α → Except Fault β) {gather : List β → γ}
    {join : β → γ → γ} (h : ∀ b bs, gather (b :: bs) = join b (gather bs)) (a : α) (as : List α) :
    ((a :: as).mapM f).map gather = (do
      let b ← f a
      let c ← (as.mapM f).map gather
      return join b c) := by
  rw [List.mapM_cons]
  cases f a with
  | error fault => rfl
  | ok b =>
    cases as.mapM f with
    | error fault => rfl
    | ok bs => exact congrArg Except.ok (h b bs)

namespace Stmt

variable (w : Setting) (n : Nesting)

/-- **The lines of statements** are those that each of them has on its
own, up to the first fault. -/
theorem outcome_emitAll_eq_mapM (stmts : List Stmt) :
    outcome (emitAll w stmts) n
      = (stmts.mapM fun s => outcome (s.emit w) n).map List.flatten := by
  induction stmts with
  | nil => exact outcome_emitAll_nil w n
  | cons s ss ih => rw [outcome_emitAll_cons, ih, map_mapM_cons _ fun _ _ => List.flatten_cons]

/-- **The chunks of statements** are those that each of them has on its
own, up to the first fault. -/
theorem outcome_chunks_eq_mapM (stmts : List Stmt) :
    outcome (chunks w stmts) n
      = (stmts.mapM fun s => outcome (s.emit w) n).map (List.map (Text.joinWith "\n")) := by
  induction stmts with
  | nil => exact outcome_chunks_nil w n
  | cons s ss ih => rw [outcome_chunks_cons, ih, map_mapM_cons _ fun _ _ => List.map_cons]

end Stmt

/-- **What a nesting is used for**: the lines of a statement or of a list
of statements, or the text, the value or the condition of an
expression. -/
inductive Task where
  | statement (s : Stmt)
  | block (stmts : List Stmt)
  | text (e : Expr)
  | value (e : Expr)
  | condition (e : Expr)

namespace Task

/-- What is done for a task. -/
def emission (w : Setting) : Task → Emission (List String)
  | .statement s => s.emit w
  | .block stmts => Stmt.emitAll w stmts
  | .text e => return [← (e.text w.options.target : Except _ _)]
  | .value e => return [← (e.value w.options.target : Except _ _)]
  | .condition e => return [← (e.condition w.options.target : Except _ _)]

theorem emission_restores (w : Setting) (task : Task) : Restores (task.emission w) := by
  have hexpr : ∀ x : Except Fault String,
      Restores (do return [← (x : Except _ _)] : Emission (List String)) :=
    fun x => restores_bind (restores_lift x) fun _ => restores_pure _
  cases task with
  | statement s => exact s.emit_restores w
  | block stmts => exact Stmt.emitAll_restores w stmts
  | text e => exact hexpr _
  | value e => exact hexpr _
  | condition e => exact hexpr _

/-- **A nesting can be shared.** Whatever a nesting is used for, it is
behind that what it was before, be there a fault or not. So tasks that
share a nesting come out as if each had one of its own, and so do the
statements of a list, up to the first fault. -/
theorem nesting_shared (w : Setting) (n : Nesting) :
    (∀ task : Task, ((task.emission w).runFrom n).2 = n)
      ∧ (∀ tasks : List Task, runEach (tasks.map (·.emission w)) n
          = (tasks.map fun task => ((task.emission w).runFrom n).1, n))
      ∧ ∀ stmts : List Stmt,
        (Stmt.emitAll w stmts).runFrom n
            = ((stmts.mapM fun s : Stmt => ((s.emit w).runFrom n).1).map List.flatten, n)
          ∧ (Stmt.chunks w stmts).runFrom n
            = ((stmts.mapM fun s : Stmt => ((s.emit w).runFrom n).1).map
                (List.map (Text.joinWith "\n")), n) := by
  refine ⟨fun task => task.emission_restores w n, fun tasks => ?_, fun stmts => ⟨?_, ?_⟩⟩
  · rw [runEach_eq (List.forall_mem_map.2 fun task _ => task.emission_restores w), List.map_map]
    rfl
  · rw [(Stmt.emitAll_restores w stmts).runFrom_eq, Stmt.outcome_emitAll_eq_mapM]
    rfl
  · rw [(Stmt.chunks_restores w stmts).runFrom_eq, Stmt.outcome_chunks_eq_mapM]
    rfl

end Task

end ScriptToShell
