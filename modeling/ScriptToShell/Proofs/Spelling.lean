import ScriptToShell.Proofs.Plain
import ScriptToShell.Proofs.Printing
import ScriptToShell.Proofs.ProgramPlaces

/-!
# The spelling of names

A name in a program is a name of the text, character by character: nothing is
resolved, changed or made up. So what is true of every token that is a name
is true of every name in a program (`Program.isSpelled_of_parse`), and such a
token holds neither white space nor any punctuation but that of an escape
(`IsSpelled`).

To see this it is enough to follow what a reader gives and not where it stops
(`Gives`). Only the rules that make a node with a name in it have anything to
show; of all the others it is enough that what they give has no name.
-/

namespace ScriptToShell

/-! ## Readers that give values of a kind -/

namespace Scan

variable {α β : Type} {r s : Reader α} {P : α → Prop} {Q : β → Prop}

/-- **A reader that gives values of a kind**, wherever it starts. -/
def Reader.Gives (r : Reader α) (P : α → Prop) : Prop := ∀ c a d, r c = some (a, d) → P a

namespace Reader.Gives

theorem pure {a : α} (h : P a) : (Pure.pure a : Reader α).Gives P := by
  rintro c _ _ ⟨⟩
  exact h

theorem failure : (Alternative.failure : Reader α).Gives P := nofun

theorem failure_bind {f : α → Reader β} :
    ((Alternative.failure : Reader α) >>= f).Gives Q := nofun

theorem bind (h : r.Gives P) {f : α → Reader β} (hf : ∀ a, P a → (f a).Gives Q) :
    (r >>= f).Gives Q := by
  intro c b e hb
  obtain ⟨⟨a, d⟩, ha, hb⟩ := Option.bind_eq_some_iff.1 hb
  exact hf a (h c a d ha) d b e hb

/-- Whatever was read before. -/
theorem next {f : α → Reader β} (hf : ∀ a, (f a).Gives Q) : (r >>= f).Gives Q :=
  bind (P := fun _ => True) (fun _ _ _ _ => trivial) fun a _ => hf a

/-- Whatever two readers have read before. -/
theorem next₂ {γ : Type} {s : α → Reader β} {R : γ → Prop} {f : α → β → Reader γ}
    (hf : ∀ a b, (f a b).Gives R) : (r >>= fun a => s a >>= f a).Gives R :=
  next fun a => next (hf a)

/-- Whatever three readers have read before. -/
theorem next₃ {γ δ : Type} {s : α → Reader β} {t : α → β → Reader γ} {R : δ → Prop}
    {f : α → β → γ → Reader δ} (hf : ∀ a b c, (f a b c).Gives R) :
    (r >>= fun a => s a >>= fun b => t a b >>= f a b).Gives R :=
  next fun a => next₂ (hf a)

theorem map (h : r.Gives P) {f : α → β} (hf : ∀ a, P a → Q (f a)) : (f <$> r).Gives Q := by
  intro c b e hb
  rw [Reader.map_apply] at hb
  obtain ⟨⟨a, d⟩, ha, hb⟩ := Option.map_eq_some_iff.1 hb
  cases hb
  exact hf a (h c a d ha)

theorem orElse (h : r.Gives P) (h' : s.Gives P) : (r <|> s).Gives P := by
  intro c a d ha
  rw [Reader.orElse_apply] at ha
  cases hr : r c with
  | none =>
    rw [hr] at ha
    exact h' c a d ha
  | some x =>
    rw [hr] at ha
    cases ha
    exact h c a d hr

theorem ite {p : Prop} [Decidable p] (h : r.Gives P) (h' : s.Gives P) :
    (if p then r else s).Gives P := by
  split
  · exact h
  · exact h'

theorem option (h : r.Gives P) : (Reader.option r).Gives fun found => ∀ a ∈ found, P a :=
  orElse (h.map fun a ha b hb => by cases hb; exact ha) (pure nofun)

theorem behind {opening : Reader Unit} (h : r.Gives P) :
    (Reader.behind opening r).Gives fun found => ∀ a ∈ found, P a := by
  refine next fun found => ?_
  cases found with
  | none => exact pure nofun
  | some _ => exact h.map fun a ha b hb => by cases hb; exact ha

/-- Every round of a repetition gives a value of the kind. -/
theorem many (h : r.Gives P) : (Reader.many r).Gives fun as => ∀ a ∈ as, P a := by
  refine next fun cs => ?_
  generalize cs.length = limit
  induction limit with
  | zero => exact pure (List.forall_mem_nil _)
  | succ limit ih =>
    refine orElse (bind h fun a ha => bind ih fun as has => pure ?_) (pure (List.forall_mem_nil _))
    exact List.forall_mem_cons.2 ⟨ha, has⟩

end Reader.Gives

end Scan

/-! ## Nodes whose names are of a kind -/

section Nodes

variable {ok : String → Prop}

/-- **An expression whose names are of a kind.** -/
def Expr.Spelled (ok : String → Prop) (e : Expr) : Prop := ∀ x ∈ e.positions .value, x.Named ok

/-- **A statement whose names are of a kind.** -/
def Stmt.Spelled (ok : String → Prop) (s : Stmt) : Prop := ∀ f, ∀ x ∈ s.positions f, x.Named ok

/-- A pattern whose name is of a kind. -/
def Pattern.Spelled (ok : String → Prop) (p : Pattern) : Prop := (Position.pattern p).Named ok

/-- A binding whose names are of a kind. -/
structure Declarator.Spelled (ok : String → Prop) (d : Declarator) : Prop where
  /-- What is bound. -/
  target : d.target.Spelled ok
  /-- The initial value. -/
  init : ∀ e ∈ d.init, e.Spelled ok

/-- A case whose names are of a kind. -/
structure SwitchCase.Spelled (ok : String → Prop) (c : SwitchCase) : Prop where
  /-- The test. -/
  test : ∀ e ∈ c.test, e.Spelled ok
  /-- The statements. -/
  consequent : ∀ s ∈ c.consequent, s.Spelled ok

/-- A position without a name. -/
theorem Position.named_of_names {x : Position} (h : x.names = []) : x.Named ok := by
  intro name hname
  rw [h] at hname
  cases hname

namespace Expr

/-- The names in an expression do not depend on its role. -/
theorem Spelled.positions {e : Expr} (h : e.Spelled ok) (role : Role) :
    ∀ x ∈ e.positions role, x.Named ok := by
  obtain ⟨hown, hparts⟩ := List.forall_mem_cons.1 h
  refine List.forall_mem_cons.2 ⟨?_, hparts⟩
  cases e <;> exact hown

theorem spelled_identifier {name : String} (h : ok name) (span : Span) :
    (identifier name span).Spelled ok := by
  refine List.forall_mem_singleton.2 fun n hn => ?_
  cases List.mem_singleton.1 hn
  exact h

/-- A leaf that has no name. -/
theorem spelled_of_parts {e : Expr} (hparts : e.parts = [])
    (hnames : (Position.expression e .value).names = []) : e.Spelled ok := by
  unfold Spelled positions
  rw [hparts]
  exact List.forall_mem_singleton.2 (Position.named_of_names hnames)

theorem spelled_literal (value : Literal) (span : Span) : (literal value span).Spelled ok :=
  spelled_of_parts (by rw [parts]) rfl

theorem spelled_unsupported (kind : NodeKind) (span : Span) : (unsupported kind span).Spelled ok :=
  spelled_of_parts (by rw [parts]) rfl

theorem spelled_metaProperty (owner property : String) (span : Span) :
    (metaProperty owner property span).Spelled ok :=
  spelled_of_parts (by rw [parts]) rfl

theorem Spelled.binary {left right : Expr} (hl : left.Spelled ok) (hr : right.Spelled ok)
    (op : BinaryOp) (span : Span) : (binary op left right span).Spelled ok := by
  unfold Spelled
  rw [positions_binary, List.forall_mem_cons, List.forall_mem_append]
  exact ⟨Position.named_of_names rfl, hl, hr⟩

theorem Spelled.logical {left right : Expr} (hl : left.Spelled ok) (hr : right.Spelled ok)
    (op : LogicalOp) (span : Span) : (logical op left right span).Spelled ok := by
  unfold Spelled
  rw [positions_logical, List.forall_mem_cons, List.forall_mem_append]
  exact ⟨Position.named_of_names rfl, hl.positions _, hr.positions _⟩

theorem Spelled.not {e : Expr} (h : e.Spelled ok) (span : Span) : (not e span).Spelled ok := by
  unfold Spelled
  rw [positions_not, List.forall_mem_cons]
  exact ⟨Position.named_of_names rfl, h.positions _⟩

theorem Spelled.member {e : Expr} (h : e.Spelled ok) (property : String) (span : Span) :
    (member e property span).Spelled ok := by
  unfold Spelled
  rw [positions_member, List.forall_mem_cons]
  exact ⟨Position.named_of_names rfl, h.positions _⟩

theorem Spelled.call {callee : Expr} {arguments : List Expr} (h : callee.Spelled ok)
    (harguments : ∀ e ∈ arguments, e.Spelled ok) (span : Span) :
    (call callee arguments span).Spelled ok := by
  have hparts : ∀ x ∈ partsAll arguments, x.Named ok := by
    clear h
    induction arguments with
    | nil =>
      rw [partsAll]
      exact List.forall_mem_nil _
    | cons e es ih =>
      rw [List.forall_mem_cons] at harguments
      rw [partsAll, List.forall_mem_append]
      exact ⟨harguments.1, ih harguments.2⟩
  unfold Spelled
  rw [positions_call, List.forall_mem_cons, List.forall_mem_append]
  exact ⟨Position.named_of_names rfl, h.positions _, hparts⟩

theorem spelled_positions? {e : Option Expr} (h : ∀ e' ∈ e, e'.Spelled ok) :
    ∀ x ∈ positions? e, x.Named ok := by
  cases e with
  | none => exact List.forall_mem_nil _
  | some e => exact h e rfl

end Expr

theorem Pattern.spelled_identifier {name : String} (h : ok name) (span : Span) :
    (Pattern.identifier name span).Spelled ok := by
  intro n hn
  cases List.mem_singleton.1 hn
  exact h

theorem Pattern.spelled_unsupported (kind : NodeKind) (span : Span) :
    (Pattern.unsupported kind span).Spelled ok :=
  Position.named_of_names rfl

namespace Stmt

/-- A statement without a name of its own, by its parts. -/
theorem spelled_of_parts {s : Stmt} (hnames : ∀ f, (Position.statement s f false).names = [])
    (hparts : ∀ f, ∀ x ∈ s.parts f, x.Named ok) : s.Spelled ok :=
  fun f => List.forall_mem_cons.2 ⟨Position.named_of_names (hnames f), hparts f⟩

theorem spelled_of_leaf {s : Stmt} (hnames : ∀ f, (Position.statement s f false).names = [])
    (hparts : ∀ f, s.parts f = []) : s.Spelled ok :=
  spelled_of_parts hnames fun f => by
    rw [hparts f]
    exact List.forall_mem_nil _

theorem spelled_unsupported (kind : NodeKind) (span : Span) : (unsupported kind span).Spelled ok :=
  spelled_of_leaf (fun _ => rfl) fun _ => by rw [parts]

theorem spelled_empty (span : Span) : (empty span).Spelled ok :=
  spelled_of_leaf (fun _ => rfl) fun _ => by rw [parts]

theorem spelled_exit (span : Span) : (exit span).Spelled ok :=
  spelled_of_leaf (fun _ => rfl) fun _ => by rw [parts]

theorem spelled_importModule (source : String) (span : Span) :
    (importModule source span).Spelled ok :=
  spelled_of_leaf (fun _ => rfl) fun _ => by rw [parts]

theorem spelled_partsAll {stmts : List Stmt} (h : ∀ s ∈ stmts, s.Spelled ok) (f : Bool) :
    ∀ x ∈ partsAll f stmts, x.Named ok :=
  forall_partsAll.2 fun s hs => h s hs f

theorem spelled_caseParts {stmts : List Stmt} (h : ∀ s ∈ stmts, s.Spelled ok) (f : Bool) :
    ∀ x ∈ caseParts f stmts, x.Named ok := by
  induction stmts with
  | nil =>
    rw [caseParts]
    exact List.forall_mem_nil _
  | cons s ss ih =>
    rw [List.forall_mem_cons] at h
    obtain ⟨hown, hparts⟩ := List.forall_mem_cons.1 (h.1 f)
    rw [caseParts, List.forall_mem_append, List.forall_mem_cons]
    refine ⟨⟨?_, hparts⟩, ih h.2⟩
    cases s <;> exact hown

theorem spelled_block {body : List Stmt} (h : ∀ s ∈ body, s.Spelled ok) (span : Span) :
    (block body span).Spelled ok :=
  spelled_of_parts (fun _ => rfl) fun f => by
    rw [parts]
    exact spelled_partsAll h f

theorem spelled_expression {e : Expr} (h : e.Spelled ok) (span : Span) :
    (expression e span).Spelled ok :=
  spelled_of_parts (fun _ => rfl) fun f => by
    rw [parts]
    exact h

theorem spelled_branch {test : Expr} {consequent : Stmt} {alternate : Option Stmt}
    (htest : test.Spelled ok) (hconsequent : consequent.Spelled ok)
    (halternate : ∀ s ∈ alternate, s.Spelled ok) (span : Span) :
    (branch test consequent alternate span).Spelled ok :=
  spelled_of_parts (fun _ => rfl) fun f => by
    rw [parts, List.forall_mem_append, List.forall_mem_append]
    refine ⟨⟨htest.positions _, hconsequent f⟩, ?_⟩
    cases alternate with
    | none =>
      rw [alternateParts]
      exact List.forall_mem_nil _
    | some s =>
      rw [alternateParts]
      exact halternate s rfl f

theorem spelled_function {name : String} {params : List Pattern} {body : List Stmt}
    (hname : ok name) (hparams : ∀ p ∈ params, p.Spelled ok) (hbody : ∀ s ∈ body, s.Spelled ok)
    (span : Span) : (function name params body span).Spelled ok := by
  intro f
  refine List.forall_mem_cons.2 ⟨fun n hn => ?_, ?_⟩
  · cases List.mem_singleton.1 hn
    exact hname
  · rw [parts, List.forall_mem_append, List.forall_mem_map]
    exact ⟨hparams, spelled_partsAll hbody true⟩

theorem spelled_ret {e : Option Expr} (h : ∀ e' ∈ e, e'.Spelled ok) (span : Span) :
    (ret e span).Spelled ok :=
  spelled_of_parts (fun _ => rfl) fun f => by
    rw [parts]
    exact Expr.spelled_positions? h

theorem spelled_declaration {ds : List Declarator} (h : ∀ d ∈ ds, d.Spelled ok) (kind : DeclKind)
    (span : Span) : (declaration kind ds span).Spelled ok :=
  spelled_of_parts (fun _ => rfl) fun f => by
    rw [parts, List.forall_mem_flatMap]
    exact fun d hd =>
      List.forall_mem_cons.2 ⟨(h d hd).target, Expr.spelled_positions? (h d hd).init⟩

theorem spelled_switch {discriminant : Expr} {cases : List SwitchCase}
    (h : discriminant.Spelled ok) (hcases : ∀ c ∈ cases, c.Spelled ok) (span : Span) :
    (switch discriminant cases span).Spelled ok :=
  spelled_of_parts (fun _ => rfl) fun f => by
    rw [parts, List.forall_mem_append]
    refine ⟨h, ?_⟩
    clear h
    induction cases with
    | nil =>
      rw [SwitchCase.partsAll]
      exact List.forall_mem_nil _
    | cons c rest ih =>
      obtain ⟨test, consequent, s⟩ := c
      rw [List.forall_mem_cons] at hcases
      rw [SwitchCase.partsAll, List.forall_mem_append, List.forall_mem_append,
        List.forall_mem_cons]
      exact ⟨⟨⟨Position.named_of_names rfl, Expr.spelled_positions? hcases.1.test⟩,
        spelled_caseParts hcases.1.consequent f⟩, ih hcases.2⟩

end Stmt

end Nodes

/-! ## Rules -/

namespace Grammar

open Scan

variable {ok : String → Prop} {R : Readers} {semi : Bool} {start : Nat}

/-- An operand whose names are of a kind. -/
def Operand.Spelled (ok : String → Prop) (o : Operand) : Prop := o.expr.Spelled ok

/-- **Readers that give nodes whose names are of a kind.** -/
structure Readers.Spelled (ok : String → Prop) (R : Readers) : Prop where
  /-- Operands. -/
  operand : ∀ semi, (R.operand semi).Gives (Operand.Spelled ok)
  /-- Expressions. -/
  expression : ∀ semi bound, (R.expression semi bound).Gives (Operand.Spelled ok)
  /-- Patterns. -/
  pattern : R.pattern.Gives (Pattern.Spelled ok)
  /-- Statements. -/
  statement : R.statement.Gives (Stmt.Spelled ok)

/-- **Every name that is read is of a kind**, and so is the one word that
stands for a name though it is read as a keyword. -/
structure NamesRead (ok : String → Prop) : Prop where
  /-- A name that is read. -/
  name : Reader.name.Gives ok
  /-- The word that may be a name or the start of a function. -/
  async : ok "async"

theorem gives_operandFrom (form : Form) {make : Span → Expr} (h : ∀ span, (make span).Spelled ok) :
    (operandFrom start form make).Gives (Operand.Spelled ok) :=
  .next fun _ => .pure (h _)

theorem gives_unsupportedFrom (kind : NodeKind) :
    (unsupportedFrom kind start).Gives (Operand.Spelled ok) :=
  gives_operandFrom .other fun _ => Expr.spelled_unsupported _ _

/-! ### Lists -/

section Lists

variable (hR : R.Spelled ok)

include hR

theorem gives_expressionList : (expressionList R semi).Gives (·.1.Spelled ok) :=
  (hR.expression semi 0).bind fun _ hfirst => .next fun _ => .pure hfirst

theorem gives_expressions : (expressions R semi).Gives (Expr.Spelled ok) := by
  refine .next fun _ => (gives_expressionList hR).bind fun found hfound => ?_
  obtain ⟨first, others⟩ := found
  cases others with
  | zero => exact .pure hfound
  | succ _ => exact .next fun _ => .pure (Expr.spelled_unsupported _ _)

theorem gives_parenthesized : (parenthesized R).Gives (Expr.Spelled ok) := by
  refine .next₃ fun _ _ marks =>
    (gives_expressionList hR).bind fun found hfound => .next fun _ => ?_
  obtain ⟨first, others⟩ := found
  cases marks with
  | cons _ _ => exact .pure (Expr.spelled_unsupported _ _)
  | nil =>
    cases others with
    | zero => exact .pure hfound
    | succ _ => exact .next fun _ => .pure (Expr.spelled_unsupported _ _)

theorem gives_item : (item R).Gives (Expr.Spelled ok) := by
  refine .orElse ?_ ((hR.expression false 0).bind fun _ ho => .pure ho)
  exact .next₃ fun _ _ _ => .next₂ fun _ _ =>
    .pure (Expr.spelled_unsupported _ _)

theorem gives_slot : (slot R).Gives fun es => ∀ e ∈ es, e.Spelled ok := by
  refine .next fun _ => (gives_item hR).option.bind fun value hvalue => .pure ?_
  rw [List.forall_mem_append, List.forall_mem_map]
  exact ⟨fun _ _ => Expr.spelled_unsupported _ _, fun e he => hvalue e (Option.mem_toList.1 he)⟩

theorem gives_arguments : (arguments R).Gives fun es => ∀ e ∈ es, e.Spelled ok := by
  have hmore : (Reader.many do
      symbol ","
      slot R).Gives fun ess => ∀ es ∈ ess, ∀ e ∈ es, e.Spelled ok :=
    .many (.next fun _ => gives_slot hR)
  refine .next fun _ => (gives_slot hR).bind fun first hfirst =>
    hmore.bind fun more hmore => .next fun _ => .pure ?_
  rw [List.forall_mem_append]
  refine ⟨hfirst, fun e he => ?_⟩
  obtain ⟨es, hes, he⟩ := List.mem_flatten.1 he
  exact hmore es hes e he

theorem gives_statements : (statements R).Gives fun stmts => ∀ s ∈ stmts, s.Spelled ok := by
  have hgroups : (Reader.many do
      let marks ← Reader.marks
      let statement ← R.statement
      return marks.map markStatement ++ [statement]).Gives
        fun groups => ∀ stmts ∈ groups, ∀ s ∈ stmts, s.Spelled ok := by
    refine .many (.next fun marks => hR.statement.bind fun s hs => .pure ?_)
    rw [List.forall_mem_append, List.forall_mem_map, List.forall_mem_singleton]
    exact ⟨fun _ _ => Stmt.spelled_unsupported _ _, hs⟩
  refine hgroups.bind fun groups hgroups => .next fun last => .pure ?_
  rw [List.forall_mem_append, List.forall_mem_map]
  refine ⟨fun s hs => ?_, fun _ _ => Stmt.spelled_unsupported _ _⟩
  obtain ⟨stmts, hstmts, hs⟩ := List.mem_flatten.1 hs
  exact hgroups stmts hstmts s hs

theorem gives_block (bare : Bool) :
    (block R bare).Gives fun stmts => ∀ s ∈ stmts, s.Spelled ok :=
  .next fun _ => (gives_statements hR).bind fun _ hbody => .next₂ fun _ _ =>
    .pure fun s hs => hbody s (List.dropWhile_subset _ hs)

end Lists

/-! ### Patterns and parameters -/

theorem gives_bindingTarget (hname : Reader.name.Gives ok) :
    (bindingTarget R).Gives (Pattern.Spelled ok) := by
  refine .next fun _ => .orElse ?_ (.orElse ?_ ?_)
  · exact hname.bind fun _ h => .next fun _ => .pure (Pattern.spelled_identifier h _)
  · exact .next₂ fun _ _ => .pure (Pattern.spelled_unsupported _ _)
  · exact .next₂ fun _ _ => .pure (Pattern.spelled_unsupported _ _)

theorem gives_initializer (hR : R.Spelled ok) : (initializer R semi).Gives (Expr.Spelled ok) :=
  .next₂ fun _ _ => (hR.expression semi 0).bind fun _ ho => .pure ho

theorem gives_parameters (hR : R.Spelled ok) :
    (parameters R).Gives fun ps => ∀ p ∈ ps, p.Spelled ok := by
  have hmarks : ∀ marks : List Span, ∀ p ∈ marks.map markPattern, p.Spelled ok := fun marks =>
    List.forall_mem_map.2 fun _ _ => Pattern.spelled_unsupported _ _
  have hmore : (Reader.many do
      symbol ","
      let marks ← Reader.marks
      let next ← R.pattern
      return marks.map markPattern ++ [next]).Gives fun pss => ∀ ps ∈ pss, ∀ p ∈ ps, p.Spelled ok :=
    .many (.next₂ fun _ marks => hR.pattern.bind fun p hp =>
      .pure (List.forall_mem_append.2 ⟨hmarks marks, List.forall_mem_singleton.2 hp⟩))
  refine .next₂ fun _ marks => hR.pattern.option.bind fun first hfirst => ?_
  cases first with
  | none => exact .next fun _ => .pure (hmarks marks)
  | some first =>
    refine hmore.bind fun more hmore => .next₂ fun last _ => .pure ?_
    rw [List.forall_mem_append, List.forall_mem_append, List.forall_mem_cons]
    refine ⟨⟨hmarks marks, hfirst first rfl, fun p hp => ?_⟩, hmarks _⟩
    obtain ⟨ps, hps, hp⟩ := List.mem_flatten.1 hp
    exact hmore ps hps p hp

theorem gives_functionRest (hR : R.Spelled ok) (bare : Bool) : (functionRest R bare).Gives
    fun found => (∀ p ∈ found.1, p.Spelled ok) ∧ ∀ s ∈ found.2, s.Spelled ok :=
  .next fun _ => (gives_parameters hR).bind fun _ hparams => .next fun _ =>
    (gives_block hR bare).bind fun _ hbody => .pure ⟨hparams, hbody⟩

/-! ### Operands -/

section Operands

variable (hnames : NamesRead ok) (hR : R.Spelled ok)

include hR in
theorem gives_parenthesizedOrArrow :
    (parenthesizedOrArrow R semi).Gives (Operand.Spelled ok) := by
  have harrow : ∀ start : Cursor, (do
      set start
      arrow R semi
      unsupportedFrom .arrowFunctionExpression start.pos : Reader Operand).Gives
        (Operand.Spelled ok) := fun _ => .next₂ fun _ _ => gives_unsupportedFrom _
  refine .next fun start => (gives_parenthesized hR).option.bind fun inner hinner =>
    .next fun isArrow => ?_
  cases inner with
  | none => exact harrow start
  | some inner =>
    cases isArrow with
    | true => exact harrow start
    | false => exact .pure (hinner inner rfl)

theorem gives_literalOrPattern (kind : NodeKind) (literal pattern : Reader Unit) :
    (literalOrPattern R semi kind literal pattern).Gives (Operand.Spelled ok) := by
  refine .next fun _ => .orElse ?_ ?_
  · exact .next₂ fun _ _ => gives_unsupportedFrom _
  · exact .next₂ fun _ _ => .next₂ fun _ _ => gives_unsupportedFrom _

include hnames in
theorem gives_asyncRest : (asyncRest R semi start).Gives (Operand.Spelled ok) := by
  refine .next₂ fun span _ => .ite ?_ (.orElse ?_ (.orElse ?_ (.orElse ?_
    (.orElse ?_ ?_))))
  · exact .pure (Expr.spelled_identifier hnames.async _)
  · exact .next₃ fun _ _ _ => gives_unsupportedFrom _
  · exact .next₂ fun _ _ => .next₂ fun _ _ => gives_unsupportedFrom _
  · exact .next₂ fun _ _ => gives_unsupportedFrom _
  · exact .next fun _ => gives_unsupportedFrom _
  · exact .pure (Expr.spelled_identifier hnames.async _)

theorem gives_metaProperty (start : Cursor) : (metaProperty start).Gives (Operand.Spelled ok) :=
  .next fun _ => gives_operandFrom .other fun _ => Expr.spelled_metaProperty _ _ _

theorem gives_importRest (start : Cursor) : (importRest R start).Gives (Operand.Spelled ok) := by
  refine .orElse (.next₂ fun _ _ => gives_unsupportedFrom _) ?_
  refine .next₂ fun span _ => .next₂ fun _ word => .ite ?_ ?_
  · exact gives_metaProperty start
  · exact gives_operandFrom .member fun _ => (Expr.spelled_unsupported _ span).member _ _

include hR in
theorem gives_privateIn : (privateIn R semi).Gives (Operand.Spelled ok) :=
  .next₃ fun _ _ _ => .next₃ fun _ _ _ =>
    (hR.expression semi 9).bind fun _ hright => gives_operandFrom .other fun _ =>
      (Expr.spelled_unsupported _ _).binary hright _ _

include hnames in
/-- A name, or what starts with a word. -/
theorem gives_wordOperand : (wordOperand R semi).Gives (Operand.Spelled ok) := by
  have hliteral : ∀ (offset : Nat) (value : Literal),
      (operandFrom offset .other (.literal value)).Gives (Operand.Spelled ok) :=
    fun _ value => gives_operandFrom .other fun _ => Expr.spelled_literal value _
  refine .next fun start => hnames.name.bind fun word hword => ?_
  have hvariable : (operandFrom start.pos .name (.identifier word)).Gives (Operand.Spelled ok) :=
    gives_operandFrom .name fun _ => Expr.spelled_identifier hword _
  split
  · exact hliteral _ _
  · exact hliteral _ _
  · exact hliteral _ _
  · exact gives_unsupportedFrom _
  · exact gives_unsupportedFrom _
  · exact hvariable
  · exact .next fun _ => gives_unsupportedFrom _
  · exact .next fun _ => gives_unsupportedFrom _
  · exact gives_importRest start
  · exact gives_asyncRest hnames
  · refine .next fun _ => hvariable.bind fun o ho => .orElse ?_ (.pure ho)
    exact .next fun _ => gives_unsupportedFrom _

include hnames hR in
theorem gives_primary : (primary R semi).Gives (Operand.Spelled ok) := by
  have hliteral : ∀ (offset : Nat) (value : Literal),
      (operandFrom offset .other (.literal value)).Gives (Operand.Spelled ok) :=
    fun _ value => gives_operandFrom .other fun _ => Expr.spelled_literal value _
  refine .next₂ fun _ cs => ?_
  split
  · exact gives_parenthesizedOrArrow hR
  · exact gives_literalOrPattern _ _ _
  · exact gives_literalOrPattern _ _ _
  · exact .next fun _ => hliteral _ _
  · exact .next fun _ => hliteral _ _
  · exact .next fun _ => gives_unsupportedFrom _
  · exact .next fun _ => gives_unsupportedFrom _
  · exact .next fun _ => gives_unsupportedFrom _
  · exact gives_privateIn hR
  · exact .next₃ fun _ _ _ => gives_unsupportedFrom _
  · exact .ite (.next fun _ => hliteral _ _) (gives_wordOperand hnames)
  · exact .failure

theorem gives_propertyAccess {object : Expr} (h : object.Spelled ok) :
    (propertyAccess start object).Gives (Operand.Spelled ok) := by
  refine .next fun _ => .orElse ?_ ?_
  · exact .next fun _ => gives_operandFrom .member fun _ => Expr.spelled_unsupported _ _
  · exact .next fun _ => gives_operandFrom .member fun _ => h.member _ _

theorem gives_subscript : (subscript R start).Gives (Operand.Spelled ok) :=
  .next₂ fun _ _ => .next₂ fun _ _ =>
    gives_operandFrom .subscript fun _ => Expr.spelled_unsupported _ _

theorem gives_optionalSuffix (o : Operand) :
    (optionalSuffix R start o).Gives (Operand.Spelled ok) := by
  refine .next fun _ => .orElse ?_ (.orElse gives_subscript ?_)
  · exact .next fun _ => gives_unsupportedFrom _
  · exact .next fun _ => gives_operandFrom .member fun _ => Expr.spelled_unsupported _ _

theorem gives_accessSuffix {o : Operand} (h : o.Spelled ok) :
    (accessSuffix R start o).Gives (Operand.Spelled ok) := by
  refine .next₂ fun _ cs => ?_
  split
  · exact .next fun _ => gives_propertyAccess h
  · exact gives_subscript
  · exact .next₂ fun _ _ => gives_optionalSuffix o
  · exact .next fun _ => gives_unsupportedFrom _
  · exact .failure

include hR in
theorem gives_callSuffix {o : Operand} (h : o.Spelled ok) :
    (callSuffix R semi start o).Gives (Operand.Spelled ok) := by
  refine .ite (.next₃ fun supplied _ cs => ?_)
    (.next₃ fun supplied _ cs => ?_)
  all_goals
    split
    · exact (gives_arguments hR).bind fun _ hargs => gives_operandFrom .other fun _ =>
        Expr.Spelled.call h hargs _
    · exact .next₂ fun _ _ => gives_unsupportedFrom _
    · exact .next₂ fun _ _ => gives_unsupportedFrom _
    · exact .failure

/-- Suffixes give what each of them gives. -/
theorem gives_suffixes {suffix : Operand → Reader Operand}
    (h : ∀ o, o.Spelled ok → (suffix o).Gives (Operand.Spelled ok)) {o : Operand}
    (ho : o.Spelled ok) : (suffixes suffix o).Gives (Operand.Spelled ok) := by
  refine .next fun cs => ?_
  generalize cs.length = limit
  induction limit generalizing o with
  | zero => exact .pure ho
  | succ limit ih => exact .orElse ((h o ho).bind fun _ hnext => ih hnext) (.pure ho)

theorem gives_newOperand : (newOperand R semi).Gives (Operand.Spelled ok) := by
  refine .next₂ fun start _ => .orElse ?_ ?_
  · exact .next₂ fun _ _ => gives_metaProperty start
  · refine .next₂ fun _ _ => .next₂ fun _ _ => .ite .failure_bind ?_
    exact .next₂ fun _ _ => .next₂ fun _ _ => gives_unsupportedFrom _

include hnames hR in
theorem gives_suffixed : (suffixed R semi).Gives (Operand.Spelled ok) := by
  refine .next₂ fun start cs => ?_
  have hsuffixes : ∀ o : Operand, o.Spelled ok → (suffixes (fun o =>
      accessSuffix R start o <|> callSuffix R semi start o) o).Gives (Operand.Spelled ok) :=
    fun _ => gives_suffixes fun o ho => .orElse (gives_accessSuffix ho) (gives_callSuffix hR ho)
  exact .ite (gives_newOperand.bind hsuffixes) ((gives_primary hnames hR).bind hsuffixes)

theorem gives_assigned {o : Operand} (h : o.Spelled ok) :
    (assigned R semi start o).Gives (Operand.Spelled ok) := by
  refine .ite (.pure h) (.orElse ?_ (.pure h))
  exact .next₃ fun _ _ _ => gives_unsupportedFrom _

include hR in
theorem gives_prefixed (operator : Reader Unit) (isNot isMinus : Bool) :
    (prefixed R semi operator isNot isMinus).Gives (Operand.Spelled ok) := by
  refine .next₂ fun _ _ => .next₂ fun _ _ =>
    (hR.operand semi).bind fun o ho => .ite ?_ ?_
  · exact gives_operandFrom .other fun _ => Expr.Spelled.not ho _
  · split
    · exact gives_operandFrom .other fun _ => Expr.spelled_literal _ _
    · exact gives_unsupportedFrom _

include hnames hR in
/-- Operands. -/
theorem gives_operandRule : (operandRule R semi).Gives (Operand.Spelled ok) := by
  refine .next₂ fun start cs => ?_
  split
  · exact gives_prefixed hR _ _ _
  · exact gives_prefixed hR _ _ _
  · exact .next₃ fun _ _ _ => gives_unsupportedFrom _
  · exact .next₃ fun _ _ _ => gives_unsupportedFrom _
  · exact gives_prefixed hR _ _ _
  · exact gives_prefixed hR _ _ _
  · split
    · exact gives_prefixed hR _ _ _
    · exact gives_prefixed hR _ _ _
    · exact gives_prefixed hR _ _ _
    · exact .next₃ fun _ _ _ => gives_unsupportedFrom _
    · exact .next₂ fun _ _ => gives_unsupportedFrom _
    · exact (gives_suffixed hnames hR).bind fun o ho => gives_assigned ho

theorem Connective.spelled_apply (c : Connective) {left right : Expr} (hl : left.Spelled ok)
    (hr : right.Spelled ok) (span : Span) : (c.apply left right span).Spelled ok := by
  cases c with
  | binary op => exact hl.binary hr op span
  | logical op => exact hl.logical hr op span
  | coalesce => exact Expr.spelled_unsupported _ span

theorem gives_conditional (bound : Nat) :
    (conditional R semi bound start).Gives (Operand.Spelled ok) := by
  have hbranches : (do
      Reader.gap
      let _ ← R.assignment false
      symbol ":"
      Reader.gap
      let _ ← R.assignment semi
      unsupportedFrom .conditionalExpression start : Reader Operand).Gives (Operand.Spelled ok) :=
    .next₃ fun _ _ _ => .next₂ fun _ _ =>
      gives_unsupportedFrom _
  refine .next₃ fun _ _ cs => ?_
  split
  · exact .next fun _ => hbranches
  · exact .next fun _ => hbranches
  · exact hbranches

include hnames hR in
/-- Expressions. -/
theorem gives_expressionRule (bound : Nat) :
    (expressionRule R semi bound).Gives (Operand.Spelled ok) := by
  refine .next fun start => (gives_operandRule hnames hR).bind fun _ hfirst =>
    gives_suffixes (fun o ho => .orElse ?_ (gives_conditional bound)) hfirst
  exact .next₂ fun c _ => (hR.expression semi _).bind fun _ hright =>
    gives_operandFrom .other fun _ => c.spelled_apply ho hright _

include hnames hR in
/-- Patterns. -/
theorem gives_patternRule : (patternRule R).Gives (Pattern.Spelled ok) := by
  have hdefault : ∀ (start : Nat) (target : Pattern), target.Spelled ok → (do
      let default ← Reader.option (initializer R false)
      if default.isSome then return .unsupported .assignmentPattern (← spanFrom start)
      else return target : Reader Pattern).Gives (Pattern.Spelled ok) :=
    fun _ _ h => .next fun _ => .ite (.next fun _ => .pure (Pattern.spelled_unsupported _ _))
      (.pure h)
  refine .next₂ fun start cs => ?_
  split
  · exact .next₂ fun _ _ => .next₂ fun _ _ =>
      hdefault start _ (Pattern.spelled_unsupported _ _)
  · exact .next₂ fun _ _ => hdefault start _ (Pattern.spelled_unsupported _ _)
  · exact .next₂ fun _ _ => hdefault start _ (Pattern.spelled_unsupported _ _)
  · exact .failure_bind
  · refine (gives_suffixed hnames hR).bind fun o ho => .next fun span => ?_
    split
    · rename_i name s _ hexpr
      have hname : ok name := by
        rw [Operand.Spelled, hexpr] at ho
        exact ho _ List.mem_cons_self name (List.mem_singleton_self name)
      refine hdefault start _ ?_
      split
      · exact Pattern.spelled_unsupported _ _
      · exact Pattern.spelled_identifier hname _
    · exact hdefault start _ (Pattern.spelled_unsupported _ _)
    · exact hdefault start _ (Pattern.spelled_unsupported _ _)
    · exact .failure_bind

end Operands

/-! ### Statements -/

theorem gives_statementFrom {make : Span → Stmt} (h : ∀ span, (make span).Spelled ok) :
    (statementFrom start make).Gives (Stmt.Spelled ok) :=
  .next fun _ => .pure (h _)

theorem gives_unsupportedStatement (kind : NodeKind) :
    (unsupportedStatement kind start).Gives (Stmt.Spelled ok) :=
  gives_statementFrom fun _ => Stmt.spelled_unsupported _ _

section Statements

variable (hname : Reader.name.Gives ok) (hR : R.Spelled ok)

include hR in
theorem gives_expressionStatement : (expressionStatement R).Gives (Stmt.Spelled ok) :=
  .next fun _ => (gives_expressions hR).bind fun _ hvalue => .next fun _ =>
    gives_statementFrom fun _ => Stmt.spelled_expression hvalue _

theorem gives_labeled : (labeled R).Gives (Stmt.Spelled ok) :=
  .next₃ fun _ _ _ => .next₃ fun _ _ _ =>
    gives_unsupportedStatement _

include hname hR in
theorem gives_declarator : (declarator R).Gives (Declarator.Spelled ok) := by
  refine .next fun _ => (gives_bindingTarget hname).bind fun target htarget =>
    .next fun ended => .ite ?_ ?_
  · exact (Reader.Gives.pure (P := fun found => ∀ e ∈ found, e.Spelled ok) nofun).bind
      fun _ hinit => .next fun _ => .pure ⟨htarget, hinit⟩
  · exact (gives_initializer hR).option.bind fun _ hinit => .next fun _ => .pure ⟨htarget, hinit⟩

include hname hR in
theorem gives_declaratorsUpTo (limit : Nat) {d : Declarator} (hd : d.Spelled ok) :
    (declaratorsUpTo R limit d).Gives fun ds => ∀ d ∈ ds, d.Spelled ok := by
  induction limit generalizing d with
  | zero => exact .pure (List.forall_mem_singleton.2 hd)
  | succ limit ih =>
    have hmore : (do
        symbol ","
        Reader.gap
        let next ← declarator R
        let more ← declaratorsUpTo R limit next
        return d :: more : Reader (List Declarator)).Gives fun ds => ∀ d ∈ ds, d.Spelled ok :=
      .next₂ fun _ _ => (gives_declarator hname hR).bind fun _ hnext =>
        (ih hnext).bind fun _ hmore => .pure (List.forall_mem_cons.2 ⟨hd, hmore⟩)
    refine .orElse (.ite ?_ hmore) (.pure (List.forall_mem_singleton.2 hd))
    exact .next₂ fun _ _ => hmore

include hname hR in
theorem gives_declarationRest (kind : DeclKind) :
    (declarationRest R kind start).Gives (Stmt.Spelled ok) :=
  (gives_declarator hname hR).bind fun _ hfirst => .next fun _ =>
    (gives_declaratorsUpTo hname hR _ hfirst).bind fun _ hall => .next fun _ =>
      gives_statementFrom fun _ => Stmt.spelled_declaration hall kind _

include hname hR in
theorem gives_declaration (kind : DeclKind) (word : String) :
    (declaration R kind word).Gives (Stmt.Spelled ok) :=
  .next₃ fun _ _ _ => gives_declarationRest hname hR kind

include hname hR in
theorem gives_letDeclaration : (letDeclaration R).Gives (Stmt.Spelled ok) := by
  refine .next₃ fun _ _ _ => .next₃ fun _ _ cs => ?_
  split
  · exact .failure
  · exact .failure
  · exact gives_declarationRest hname hR .let

include hname hR in
theorem gives_namedFunction : (namedFunction R start).Gives (Stmt.Spelled ok) := by
  refine .next₂ fun _ _ => .next₂ fun star _ =>
    hname.bind fun name hok => (gives_functionRest hR false).bind fun found hfound => ?_
  obtain ⟨params, body⟩ := found
  exact .ite (gives_unsupportedStatement _)
    (gives_statementFrom fun _ => Stmt.spelled_function hok hfound.1 hfound.2 _)

include hname hR in
theorem gives_asyncFunction : (asyncFunction R).Gives (Stmt.Spelled ok) :=
  .next₃ fun _ _ _ => .next₂ fun _ _ => .next₂ fun _ _ => gives_namedFunction hname hR

theorem gives_namedClass : (namedClass R start).Gives (Stmt.Spelled ok) :=
  .next₃ fun _ _ _ => gives_unsupportedStatement _

include hR in
theorem gives_alternate : (alternate R).Gives (Stmt.Spelled ok) := by
  refine .next fun marks => hR.statement.bind fun s hs => ?_
  cases marks with
  | nil => exact .pure hs
  | cons _ _ => exact .pure (Stmt.spelled_unsupported _ _)

include hR in
theorem gives_branch : (branch R).Gives (Stmt.Spelled ok) := by
  have htest : (testInParentheses R).Gives (Expr.Spelled ok) :=
    .next fun _ => gives_parenthesized hR
  have hnested : (nested R).Gives (Stmt.Spelled ok) := .next fun _ => hR.statement
  exact .next₂ fun _ _ => htest.bind fun _ htest => hnested.bind fun _ hconsequent =>
    (gives_alternate hR).behind.bind fun _ hother => gives_statementFrom fun _ =>
      Stmt.spelled_branch htest hconsequent hother _

include hR in
theorem gives_caseBody : (caseBody R).Gives fun stmts => ∀ s ∈ stmts, s.Spelled ok := by
  refine .many (.next₂ fun _ cs => ?_)
  split
  · exact .failure
  · exact .failure
  · exact hR.statement

include hR in
theorem gives_switchCase : (switchCase R).Gives (SwitchCase.Spelled ok) := by
  refine .next fun _ => .orElse ?_ ?_
  · refine .next₂ fun _ _ => (gives_expressions hR).bind fun test htest =>
      .next fun _ => (gives_caseBody hR).bind fun _ hbody => .next fun _ => .pure ⟨?_, hbody⟩
    rintro _ ⟨⟩
    exact htest
  · exact .next₂ fun _ _ => (gives_caseBody hR).bind fun _ hbody => .next fun _ =>
      .pure ⟨nofun, hbody⟩

include hR in
theorem gives_switchStatement : (switchStatement R).Gives (Stmt.Spelled ok) := by
  have htest : (testInParentheses R).Gives (Expr.Spelled ok) :=
    .next fun _ => gives_parenthesized hR
  have hcases : (Reader.many do
      Reader.gap
      switchCase R).Gives fun cases => ∀ c ∈ cases, c.Spelled ok :=
    .many (.next fun _ => gives_switchCase hR)
  exact .next₂ fun _ _ => htest.bind fun _ htest => .next fun _ =>
    hcases.bind fun _ hcases => .next fun _ => gives_statementFrom fun _ =>
      Stmt.spelled_switch htest hcases _

theorem gives_exitStatement : exitStatement.Gives (Stmt.Spelled ok) :=
  .next₂ fun _ _ => .ite (gives_unsupportedStatement _)
    (gives_statementFrom fun _ => Stmt.spelled_exit _)

include hR in
theorem gives_returnStatement : (returnStatement R).Gives (Stmt.Spelled ok) := by
  have hend : ∀ (start : Nat) (value : Option Expr), (∀ e ∈ value, e.Spelled ok) → (do
      Reader.semicolon value.isNone
      statementFrom start (.ret value) : Reader Stmt).Gives (Stmt.Spelled ok) :=
    fun _ _ hvalue => .next fun _ => gives_statementFrom fun _ => Stmt.spelled_ret hvalue _
  have hvalue : (do
      Reader.trivia
      expressions R true : Reader Expr).Gives (Expr.Spelled ok) :=
    .next fun _ => gives_expressions hR
  refine .next₃ fun start _ ended => .ite ?_ ?_
  · exact (Reader.Gives.pure (P := fun found => ∀ e ∈ found, e.Spelled ok) nofun).bind (hend start)
  · exact hvalue.option.bind (hend start)

theorem gives_importStatement : (importStatement R).Gives (Stmt.Spelled ok) := by
  have hend : ∀ (start : Nat) (source : String), (do
      Reader.semicolon true
      statementFrom start (.importModule source) : Reader Stmt).Gives (Stmt.Spelled ok) :=
    fun _ _ => .next fun _ => gives_statementFrom fun _ => Stmt.spelled_importModule _ _
  refine .next₃ fun start _ _ => .next₂ fun source _ =>
    .ite ?_ (hend start source)
  exact .next₂ fun _ _ => hend start source

theorem gives_exportStatement : (exportStatement R).Gives (Stmt.Spelled ok) :=
  .next₃ fun _ _ _ => .next₂ fun _ _ => .next₂ fun _ _ => gives_unsupportedStatement _

include hR in
theorem gives_blockStatement : (blockStatement R).Gives (Stmt.Spelled ok) :=
  .next fun _ => (gives_block hR false).bind fun _ hbody => gives_statementFrom fun _ =>
    Stmt.spelled_block hbody _

include hR in
theorem gives_braceStatement : (braceStatement R).Gives (Stmt.Spelled ok) := by
  have hobject : (objectStatement R).Gives (Stmt.Spelled ok) :=
    .next₂ fun _ _ => gives_expressionStatement hR
  refine .next₂ fun _ _ => .ite (hobject.orElse (gives_blockStatement hR)) ?_
  refine .next fun _ => (gives_blockStatement hR).option.bind fun found hfound => ?_
  cases found with
  | none => exact hobject
  | some s =>
    have hs := hfound s rfl
    exact .next fun _ => .ite (.orElse (.next fun _ => hobject) (.pure hs)) (.pure hs)

include hname hR in
theorem gives_wordStatement (word : String) : (wordStatement R word).Gives (Stmt.Spelled ok) := by
  have hexpression := gives_expressionStatement hR
  have hother : (labeled R <|> expressionStatement R).Gives (Stmt.Spelled ok) :=
    gives_labeled.orElse hexpression
  refine .next fun _ => ?_
  split
  · exact gives_declaration hname hR _ _
  · exact gives_declaration hname hR _ _
  · exact (gives_letDeclaration hname hR).orElse hother
  · exact gives_branch hR
  · exact gives_switchStatement hR
  · exact .next₂ fun _ _ => .next₂ fun _ _ => gives_unsupportedStatement _
  · exact .next₂ fun _ _ => .next₂ fun _ _ => gives_unsupportedStatement _
  · exact .next₃ fun _ _ _ => .next₃ fun _ _ _ => gives_unsupportedStatement _
  · exact .next₃ fun _ _ _ => .next₃ fun _ _ _ => gives_unsupportedStatement _
  · exact .next₂ fun _ _ => .next₂ fun _ _ => gives_unsupportedStatement _
  · exact gives_exitStatement
  · exact .next₂ fun _ _ => gives_unsupportedStatement _
  · exact gives_returnStatement hR
  · exact .next₃ fun _ _ _ => .next₂ fun _ _ =>
      gives_unsupportedStatement _
  · exact .next₃ fun _ _ _ => gives_unsupportedStatement _
  · exact .next fun _ => .ite (gives_namedFunction hname hR) hexpression
  · exact .next fun _ => .ite gives_namedClass hexpression
  · exact (gives_asyncFunction hname hR).orElse hother
  · exact .next fun _ => .ite hexpression gives_importStatement
  · exact gives_exportStatement.orElse hother
  · exact hother

include hname hR in
/-- Statements. -/
theorem gives_statementRule : (statementRule R).Gives (Stmt.Spelled ok) := by
  have hexpression := gives_expressionStatement hR
  refine .next₂ fun _ cs => ?_
  split
  · exact .next fun _ => gives_statementFrom fun _ => Stmt.spelled_empty _
  · exact gives_braceStatement hR
  · refine .orElse ?_ (gives_exportStatement.orElse hexpression)
    exact .next₃ fun _ _ _ => gives_namedClass
  · split
    · exact gives_wordStatement hname hR _
    · exact hexpression

end Statements

/-- **All readers give nodes whose names are of a kind** if every name that is
read is of the kind. -/
theorem readers_spelled (hnames : NamesRead ok) (depth : Nat) : (readers depth).Spelled ok := by
  induction depth with
  | zero => exact ⟨fun _ => .failure, fun _ _ => .failure, .failure, .failure⟩
  | succ depth ih =>
    exact {
      operand := fun _ => gives_operandRule hnames ih
      expression := fun _ bound => gives_expressionRule hnames ih bound
      pattern := gives_patternRule hnames ih
      statement := gives_statementRule hnames.name ih }

theorem gives_programBody (hR : R.Spelled ok) :
    (programBody R).Gives fun stmts => ∀ s ∈ stmts, s.Spelled ok := by
  refine .next fun found => ?_
  cases found with
  | none =>
    exact (gives_statements hR).bind fun _ h => .pure fun s hs => h s (List.dropWhile_subset _ hs)
  | some marks =>
    refine (gives_statements hR).bind fun _ h => .pure (List.forall_mem_append.2 ⟨?_, h⟩)
    exact List.forall_mem_map.2 fun _ _ => Stmt.spelled_unsupported _ _

end Grammar

/-! ## The characters of a name -/

open Scan

/-- A character of an escape that is none of a name. -/
def isEscapeMark (c : Char) : Bool := c = '\\' || c = '\x7b' || c = '\x7d'

/-- **A character that names are spelled with.** -/
def isSpellingChar (c : Char) : Bool := isNameChar c || isEscapeMark c

/-- **The spelling of a name**: it is not empty, it does not start with a digit,
and its characters are those of names and of escapes. -/
structure IsSpelled (name : String) : Prop where
  /-- A name is not empty and does not start with a digit. -/
  head : ∃ c, name.toList.head? = some c ∧ c.isDigit = false
  /-- The characters of a name. -/
  chars : ∀ c ∈ name.toList, isSpellingChar c

namespace Scan

theorem isNameChar_of_isHexDigit {c : Char} (h : isHexDigit c) : isNameChar c := by
  have hascii : c.toNat < 128 := by
    unfold isHexDigit Char.isDigit at h
    simp only [Bool.or_eq_true, Bool.and_eq_true, decide_eq_true_eq, UInt32.le_iff_toNat_le,
      Char.le_def, ge_iff_le] at h
    change (((48 ≤ c.toNat ∧ c.toNat ≤ 57) ∨ (97 ≤ c.toNat ∧ c.toNat ≤ 102))
      ∨ (65 ≤ c.toNat ∧ c.toNat ≤ 70)) at h
    omega
  exact forall_ascii (P := fun c => isHexDigit c → isNameChar c) (by decide) hascii h

theorem isSpellingChar_of_isHexDigit {c : Char} (h : isHexDigit c) : isSpellingChar c := by
  rw [isSpellingChar, isNameChar_of_isHexDigit h, Bool.true_or]

/-- An escape is a backslash, a letter, and digits that may be in braces. -/
theorem take_nameEscape? {cs : List Char} {count : Nat} (h : nameEscape? cs = some count) :
    ∃ rest, cs.take count = '\\' :: 'u' :: rest
      ∧ ∀ c ∈ rest, isHexDigit c ∨ c = '\x7b' ∨ c = '\x7d' := by
  unfold nameEscape? at h
  split at h
  · rename_i cs
    obtain ⟨digits, rest, rfl, hdigits, hlength⟩ : ∃ digits rest, cs = digits ++ rest
        ∧ (∀ c ∈ digits, isHexDigit c) ∧ (cs.takeWhile isHexDigit).length = digits.length :=
      ⟨_, _, List.takeWhile_append_dropWhile.symm, List.all_eq_true.1 List.all_takeWhile, rfl⟩
    simp only [hlength, List.drop_left] at h
    split at h
    · rename_i hclosed
      cases h
      obtain ⟨rest, rfl⟩ := List.head?_eq_some_iff.1 hclosed.2
      have htake : ('\\' :: 'u' :: '\x7b' :: (digits ++ '\x7d' :: rest)).take (digits.length + 4)
          = '\\' :: 'u' :: '\x7b' :: (digits ++ ['\x7d']) := by
        simp [List.take_append, List.take_of_length_le]
      refine ⟨_, htake, fun c hc => ?_⟩
      rw [List.mem_cons, List.mem_append, List.mem_singleton] at hc
      rcases hc with rfl | hc | rfl
      · exact .inr (.inl rfl)
      · exact .inl (hdigits c hc)
      · exact .inr (.inr rfl)
    · cases h
  · rename_i cs _
    split at h
    · rename_i hdigits
      cases h
      exact ⟨_, rfl, fun c hc => .inl (List.all_eq_true.1 hdigits.2 c hc)⟩
    · cases h
  · cases h

/-- An escape starts with a backslash and goes on with characters of the kind. -/
theorem chars_of_nameEscape? {cs : List Char} {count : Nat} (h : nameEscape? cs = some count) :
    cs.head? = some '\\' ∧ ∀ c ∈ cs.take count, isSpellingChar c := by
  obtain ⟨rest, htake, hrest⟩ := take_nameEscape? h
  constructor
  · cases cs with
    | nil =>
      rw [List.take_nil] at htake
      cases htake
    | cons c cs =>
      cases count with
      | zero => cases htake
      | succ count => exact congrArg some (List.cons.inj htake).1
  · rw [htake, List.forall_mem_cons, List.forall_mem_cons]
    refine ⟨rfl, by decide, fun c hc => ?_⟩
    rcases hrest c hc with hhex | rfl | rfl
    · exact isSpellingChar_of_isHexDigit hhex
    · rfl
    · rfl

theorem chars_of_nameChar? {plain : Char → Bool} (hplain : ∀ c, plain c → isNameChar c)
    {cs : List Char} {count : Nat} (h : nameChar? plain cs = some count) :
    (∃ c, cs.head? = some c ∧ (plain c ∨ c = '\\')) ∧ ∀ c ∈ cs.take count, isSpellingChar c := by
  unfold nameChar? at h
  split at h
  · cases h
  · rename_i c cs
    split at h
    · rename_i hc
      cases h
      refine ⟨⟨c, rfl, .inl hc⟩, List.forall_mem_singleton.2 ?_⟩
      rw [isSpellingChar, hplain c hc, Bool.true_or]
    · obtain ⟨hhead, hchars⟩ := chars_of_nameEscape? h
      exact ⟨⟨c, rfl, .inr (Option.some.inj hhead)⟩, hchars⟩

theorem chars_of_nameRest (limit : Nat) (cs : List Char) :
    ∀ c ∈ cs.take (nameRest limit cs), isSpellingChar c := by
  induction limit generalizing cs with
  | zero => exact List.forall_mem_nil _
  | succ limit ih =>
    unfold nameRest
    split
    · rename_i count hcount
      rw [List.take_add, List.forall_mem_append]
      exact ⟨(chars_of_nameChar? (fun _ h => h) hcount).2, ih _⟩
    · exact List.forall_mem_nil _

/-- **A name that is read has the spelling of one.** -/
theorem isSpelled_of_name? {cs : List Char} {count : Nat} (h : name? cs = some count) :
    IsSpelled (String.ofList (cs.take count)) := by
  obtain ⟨first, hfirst, rfl⟩ := Option.map_eq_some_iff.1 h
  obtain ⟨⟨c, hc, hstart⟩, hchars⟩ := chars_of_nameChar?
    (fun c hc => (Bool.and_eq_true_iff.1 hc).1) hfirst
  have htakes := nameChar?_takes isNameStart cs first hfirst
  refine ⟨⟨c, ?_, ?_⟩, ?_⟩
  · rw [String.toList_ofList, List.head?_take, if_neg (by omega), hc]
  · rcases hstart with hstart | rfl
    · simpa using (Bool.and_eq_true_iff.1 hstart).2
    · rfl
  · rw [String.toList_ofList, List.take_add, List.forall_mem_append]
    exact ⟨hchars, chars_of_nameRest _ _⟩

theorem Reader.gives_name : Reader.name.Gives IsSpelled := by
  have htoken : (Reader.token name?).Gives fun cs => IsSpelled (String.ofList cs) := by
    intro c a d ha
    rw [Reader.token, Reader.bind_apply, Reader.ahead_apply, Option.bind_some] at ha
    cases hcount : name? c.rest with
    | none =>
      rw [hcount] at ha
      cases ha
    | some count =>
      rw [hcount] at ha
      cases ha
      exact isSpelled_of_name? hcount
  exact htoken.map fun _ h => h

end Scan

theorem isSpelled_async : IsSpelled "async" := ⟨⟨'a', rfl, rfl⟩, List.all_eq_true.1 rfl⟩

/-- **The names in a program that is read** are spelled as names. -/
theorem Program.isSpelled_of_parse {text : String} {p : Program} (h : parse text = .ok p) :
    ∀ s ∈ p.body, s.Spelled IsSpelled := by
  have hnames : Grammar.NamesRead IsSpelled := ⟨Reader.gives_name, isSpelled_async⟩
  obtain ⟨-, body, stop, hbody, -, rfl⟩ := parse_eq_ok_iff.1 h
  exact Grammar.gives_programBody (Grammar.readers_spelled hnames _) _ _ _ hbody

end ScriptToShell
