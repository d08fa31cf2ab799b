import Mathlib.Data.List.Forall2
import ScriptToShell.Proofs.Plain

/-!
# Runs side by side

To say that something has no influence on a script is to compare two
runs: over programs that differ in it, or in settings that do. This module
follows two such runs side by side. The programs are **alike**: they have
the same nodes, and the spans of corresponding nodes stand in a given
relation (`Program.Alike`). What is shown of the runs is a relation
between their outcomes, and it may be any relation that goes through a
sequence of steps (`Parallel`). It is enough that it holds where the two
runs may differ: at a fault that points at a span, at an operator, which
depends on the shell, and at a module. Then it holds of the runs as a whole
(`Program.chunks_parallel`).

The first use of this is that the shell matters to powers only
(`shell_matters_to_powers`).
-/

namespace ScriptToShell

open Emit Emission

/-! ## Programs that are alike -/

/-- **What is asked of the spans of corresponding nodes.** Of a binary
operation, the operator is known. -/
abbrev Placing := Option BinaryOp → Span → Span → Prop

/-- **Expressions that are alike**: they have the same nodes, at spans that
are related. -/
inductive Expr.Alike (r : Placing) : Expr → Expr → Prop
  | identifier {name s s'} (h : r none s s') : Alike r (.identifier name s) (.identifier name s')
  | literal {value s s'} (h : r none s s') : Alike r (.literal value s) (.literal value s')
  | binary {op left left' right right' s s'} (hleft : Alike r left left')
      (hright : Alike r right right') (h : r (some op) s s') :
      Alike r (.binary op left right s) (.binary op left' right' s')
  | logical {op left left' right right' s s'} (hleft : Alike r left left')
      (hright : Alike r right right') (h : r none s s') :
      Alike r (.logical op left right s) (.logical op left' right' s')
  | not {argument argument' s s'} (hargument : Alike r argument argument') (h : r none s s') :
      Alike r (.not argument s) (.not argument' s')
  | call {callee callee' arguments arguments' s s'} (hcallee : Alike r callee callee')
      (harguments : List.Forall₂ (Alike r) arguments arguments') (h : r none s s') :
      Alike r (.call callee arguments s) (.call callee' arguments' s')
  | member {object object' property s s'} (hobject : Alike r object object') (h : r none s s') :
      Alike r (.member object property s) (.member object' property s')
  | metaProperty {owner property s s'} (h : r none s s') :
      Alike r (.metaProperty owner property s) (.metaProperty owner property s')
  | unsupported {kind s s'} (h : r none s s') : Alike r (.unsupported kind s) (.unsupported kind s')

/-- Patterns that are alike. -/
inductive Pattern.Alike (r : Placing) : Pattern → Pattern → Prop
  | identifier {name s s'} (h : r none s s') : Alike r (.identifier name s) (.identifier name s')
  | unsupported {kind s s'} (h : r none s s') : Alike r (.unsupported kind s) (.unsupported kind s')

/-- Bindings that are alike. -/
structure Declarator.Alike (r : Placing) (d d' : Declarator) : Prop where
  /-- What is bound is alike. -/
  target : d.target.Alike r d'.target
  /-- The initial values are alike. -/
  init : Option.Rel (Expr.Alike r) d.init d'.init
  /-- The spans are related. -/
  span : r none d.span d'.span

mutual

/-- **Statements that are alike.** -/
inductive Stmt.Alike (r : Placing) : Stmt → Stmt → Prop
  | block {body body' s s'} (hbody : List.Forall₂ (Stmt.Alike r) body body') (h : r none s s') :
      Stmt.Alike r (.block body s) (.block body' s')
  | empty {s s'} (h : r none s s') : Stmt.Alike r (.empty s) (.empty s')
  | expression {value value' s s'} (hvalue : value.Alike r value') (h : r none s s') :
      Stmt.Alike r (.expression value s) (.expression value' s')
  | branch {test test' consequent consequent' alternate alternate' s s'}
      (htest : test.Alike r test') (hconsequent : Stmt.Alike r consequent consequent')
      (halternate : Option.Rel (Stmt.Alike r) alternate alternate') (h : r none s s') :
      Stmt.Alike r (.branch test consequent alternate s) (.branch test' consequent' alternate' s')
  | function {name params params' body body' s s'}
      (hparams : List.Forall₂ (Pattern.Alike r) params params')
      (hbody : List.Forall₂ (Stmt.Alike r) body body') (h : r none s s') :
      Stmt.Alike r (.function name params body s) (.function name params' body' s')
  | ret {argument argument' s s'} (hargument : Option.Rel (Expr.Alike r) argument argument')
      (h : r none s s') : Stmt.Alike r (.ret argument s) (.ret argument' s')
  | declaration {kind declarators declarators' s s'}
      (hdeclarators : List.Forall₂ (Declarator.Alike r) declarators declarators')
      (h : r none s s') :
      Stmt.Alike r (.declaration kind declarators s) (.declaration kind declarators' s')
  | switch {discriminant discriminant' cases cases' s s'}
      (hdiscriminant : discriminant.Alike r discriminant')
      (hcases : List.Forall₂ (SwitchCase.Alike r) cases cases') (h : r none s s') :
      Stmt.Alike r (.switch discriminant cases s) (.switch discriminant' cases' s')
  | importModule {source s s'} (h : r none s s') :
      Stmt.Alike r (.importModule source s) (.importModule source s')
  | exit {s s'} (h : r none s s') : Stmt.Alike r (.exit s) (.exit s')
  | unsupported {kind s s'} (h : r none s s') :
      Stmt.Alike r (.unsupported kind s) (.unsupported kind s')

/-- Cases that are alike. -/
inductive SwitchCase.Alike (r : Placing) : SwitchCase → SwitchCase → Prop
  | mk {test test' consequent consequent' s s'} (htest : Option.Rel (Expr.Alike r) test test')
      (hconsequent : List.Forall₂ (Stmt.Alike r) consequent consequent') (h : r none s s') :
      SwitchCase.Alike r (.mk test consequent s) (.mk test' consequent' s')

end

/-- **Programs that are alike.** -/
structure Program.Alike (r : Placing) (p p' : Program) : Prop where
  /-- The statements are alike. -/
  body : List.Forall₂ (Stmt.Alike r) p.body p'.body
  /-- The spans are related. -/
  span : r none p.span p'.span

/-- Corresponding members of two lists stand in a relation as soon as that
follows for each member of the first. -/
theorem forall₂_of_mem {α β : Type} {P Q : α → β → Prop} {as : List α} {bs : List β}
    (h : List.Forall₂ P as bs) (himp : ∀ a ∈ as, ∀ b, P a b → Q a b) : List.Forall₂ Q as bs :=
  ((List.forall₂_and_left as bs).2 ⟨himp, h⟩).imp fun _ b hab => hab.1 b hab.2

/-! ## A program is alike itself -/

/-- A position at which a relation between spans holds of a span and itself,
if it is one of an operation. -/
def Position.Fits (r : Placing) (x : Position) : Prop :=
  ∀ op left right span role,
    x = .expression (.binary op left right span) role → r (some op) span span

section Self

variable {r : Placing} (hr : ∀ span, r none span span)
include hr

theorem Expr.alike_self {e : Expr} {role : Role} (h : ∀ x ∈ e.positions role, x.Fits r) :
    e.Alike r e := by
  induction e using Expr.induction_on generalizing role with
  | identifier name span => exact .identifier (hr span)
  | literal value span => exact .literal (hr span)
  | binary op left right span ihl ihr =>
    rw [positions_binary, List.forall_mem_cons, List.forall_mem_append] at h
    exact .binary (ihl h.2.1) (ihr h.2.2) (h.1 op left right span role rfl)
  | logical op left right span ihl ihr =>
    rw [positions_logical, List.forall_mem_cons, List.forall_mem_append] at h
    exact .logical (ihl h.2.1) (ihr h.2.2) (hr span)
  | not argument span ih =>
    rw [positions_not, List.forall_mem_cons] at h
    exact .not (ih h.2) (hr span)
  | call callee arguments span ihc iha =>
    rw [positions_call, List.forall_mem_cons, List.forall_mem_append] at h
    have harguments : ∀ e ∈ arguments, e.Alike r e := fun e he =>
      iha e he fun x hx => h.2.2 x (positions_subset_partsAll he hx)
    exact .call (ihc h.2.1) (List.forall₂_same.2 harguments) (hr span)
  | member object property span ih =>
    rw [positions_member, List.forall_mem_cons] at h
    exact .member (ih h.2) (hr span)
  | metaProperty owner property span => exact .metaProperty (hr span)
  | unsupported kind span => exact .unsupported (hr span)

theorem Expr.alike_self? {e : Option Expr} (h : ∀ x ∈ Expr.positions? e, x.Fits r) :
    Option.Rel (Expr.Alike r) e e := by
  cases e with
  | none => exact .none
  | some e => exact .some (Expr.alike_self hr h)

omit hr in
theorem Stmt.fits_caseParts {f : Bool} {stmts : List Stmt}
    (h : ∀ x ∈ Stmt.caseParts f stmts, x.Fits r) : ∀ s ∈ stmts, ∀ x ∈ s.parts f, x.Fits r := by
  induction stmts with
  | nil => exact List.forall_mem_nil _
  | cons s ss ih =>
    rw [Stmt.caseParts, List.forall_mem_append, List.forall_mem_cons] at h
    exact List.forall_mem_cons.2 ⟨h.1.2, ih h.2⟩

omit hr in
theorem SwitchCase.fits_partsAll {f : Bool} {cases : List SwitchCase}
    (h : ∀ x ∈ SwitchCase.partsAll f cases, x.Fits r) :
    ∀ c ∈ cases, (∀ x ∈ Expr.positions? c.test, x.Fits r)
      ∧ ∀ s ∈ c.consequent, ∀ x ∈ s.parts f, x.Fits r := by
  induction cases with
  | nil => exact List.forall_mem_nil _
  | cons c rest ih =>
    obtain ⟨test, consequent, span⟩ := c
    rw [SwitchCase.partsAll, List.forall_mem_append, List.forall_mem_append,
      List.forall_mem_cons] at h
    exact List.forall_mem_cons.2 ⟨⟨h.1.1.2, Stmt.fits_caseParts h.1.2⟩, ih h.2⟩

theorem Pattern.alike_self (p : Pattern) : p.Alike r p := by
  cases p with
  | identifier name span => exact .identifier (hr span)
  | unsupported kind span => exact .unsupported (hr span)

theorem Stmt.alike_self {s : Stmt} {f : Bool} (h : ∀ x ∈ s.parts f, x.Fits r) : s.Alike r s := by
  have hall : ∀ {f : Bool} {stmts : List Stmt}, (∀ x ∈ Stmt.partsAll f stmts, x.Fits r) →
      ∀ s ∈ stmts, ∀ x ∈ s.parts f, x.Fits r := fun hparts s hs =>
    (List.forall_mem_cons.1 (Stmt.forall_partsAll.1 hparts s hs)).2
  induction s using Stmt.induction_on generalizing f with
  | block body span ih =>
    rw [parts] at h
    exact .block (List.forall₂_same.2 fun s hs => ih s hs (hall h s hs)) (hr span)
  | empty span => exact .empty (hr span)
  | expression value span =>
    rw [parts] at h
    exact .expression (Expr.alike_self hr h) (hr span)
  | branch test consequent alternate span ihc iha =>
    rw [parts, List.forall_mem_append, List.forall_mem_append, List.forall_mem_cons] at h
    refine .branch (Expr.alike_self hr h.1.1) (ihc h.1.2.2) ?_ (hr span)
    cases alternate with
    | none => exact .none
    | some s =>
      have hparts := h.2
      rw [alternateParts, List.forall_mem_cons] at hparts
      exact .some (iha s rfl hparts.2)
  | function name params body span ih =>
    rw [parts, List.forall_mem_append] at h
    exact .function (List.forall₂_same.2 fun p _ => p.alike_self hr)
      (List.forall₂_same.2 fun s hs => ih s hs (hall h.2 s hs)) (hr span)
  | ret argument span =>
    rw [parts] at h
    exact .ret (Expr.alike_self? hr h) (hr span)
  | declaration kind declarators span =>
    rw [parts, List.forall_mem_flatMap] at h
    refine .declaration (List.forall₂_same.2 fun d hd => ?_) (hr span)
    have hd := h d hd
    rw [Declarator.positions, List.forall_mem_cons] at hd
    exact ⟨d.target.alike_self hr, Expr.alike_self? hr hd.2, hr d.span⟩
  | switch discriminant cases span ih =>
    rw [parts, List.forall_mem_append] at h
    have hcases := SwitchCase.fits_partsAll h.2
    refine .switch (Expr.alike_self hr h.1) (List.forall₂_same.2 fun c hc => ?_) (hr span)
    obtain ⟨htest, hconsequent⟩ := hcases c hc
    have ihc := ih c hc
    obtain ⟨test, consequent, s⟩ := c
    exact .mk (Expr.alike_self? hr htest)
      (List.forall₂_same.2 fun s hs => ihc s hs (hconsequent s hs)) (hr s)
  | importModule source span => exact .importModule (hr span)
  | exit span => exact .exit (hr span)
  | unsupported kind span => exact .unsupported (hr span)

/-- **A program is alike itself**, if the relation between spans allows
it. -/
theorem Program.alike_self {p : Program} (h : ∀ x ∈ p.positions, x.Fits r) : p.Alike r p :=
  ⟨List.forall₂_same.2 fun s hs => Stmt.alike_self hr
    (List.forall_mem_cons.1 (Stmt.forall_partsAll.1 h s hs)).2, hr p.span⟩

end Self

/-! ## Runs side by side -/

/-- **Two runs that go side by side**: a relation between outcomes that goes
through sequences, and that holds wherever runs over alike programs in the
two settings may differ. -/
structure Parallel (r : Placing) (R : ∀ α : Type, Except Fault α → Except Fault α → Prop)
    (w w' : Setting) : Prop where
  /-- Equal results are related. -/
  ok : ∀ {α : Type} (a : α), R α (.ok a) (.ok a)
  /-- A sequence is related if its parts are. -/
  bind : ∀ {α β : Type} {x y : Except Fault α} {f g : α → Except Fault β}, R α x y →
    (∀ a, R β (f a) (g a)) → R β (x >>= f) (y >>= g)
  /-- The same fault at related spans is related. -/
  fault : ∀ {α : Type} (kind : NodeKind) (detail : Option String) {s s' : Span}, r none s s' →
    R α (.error (.unsupported kind detail (some s))) (.error (.unsupported kind detail (some s')))
  /-- An operator at related spans is. -/
  operator : ∀ (op : BinaryOp) {s s' : Span}, r (some op) s s' →
    R String (arithmeticOperator op w.options.target s) (arithmeticOperator op w'.options.target s')
  /-- The texts of a module are. -/
  modules : ∀ source : String, R String (w.modules source) (w'.modules source)
  /-- Both runs indent alike. -/
  indent : w'.options.indent = w.options.indent

namespace Parallel

variable {r : Placing} {R : ∀ α : Type, Except Fault α → Except Fault α → Prop} {w w' : Setting}
  (h : Parallel r R w w') {α β γ : Type}
include h

theorem map {x y : Except Fault α} (hxy : R α x y) (f : α → β) : R β (x.map f) (y.map f) := by
  have hbind := h.bind hxy fun a => h.ok (f a)
  cases x <;> cases y <;> exact hbind

theorem mapM {f g : γ → Except Fault α} {as bs : List γ}
    (hfg : List.Forall₂ (fun a b => R α (f a) (g b)) as bs) :
    R (List α) (as.mapM f) (bs.mapM g) := by
  induction hfg with
  | nil => exact h.ok []
  | cons hab hrest ih =>
    rw [List.mapM_cons, List.mapM_cons]
    exact h.bind hab fun _ => h.bind ih fun _ => h.ok _

theorem notSupportedFor (kind : NodeKind) (detail : String) {s s' : Span} (hs : r none s s') :
    R α (.error (.notSupportedFor kind detail s)) (.error (.notSupportedFor kind detail s')) :=
  h.fault kind (some detail) hs

end Parallel

/-! ## Expressions -/

namespace Expr

section Shape

variable {r : Placing} {e e' : Expr}

theorem Alike.embed_eq (h : e.Alike r e') : e'.embed = e.embed := by
  cases h <;> rfl

theorem Alike.needsBraces_eq (h : e.Alike r e') : e'.needsBraces = e.needsBraces := by
  cases h <;> rfl

theorem Alike.redirection?_eq (h : e.Alike r e') : redirection? e' = redirection? e := by
  cases h <;> rfl

end Shape

/-- **Expressions for which related texts are written**, bare and as a
condition. -/
def Paired (R : ∀ α : Type, Except Fault α → Except Fault α → Prop) (w w' : Setting)
    (e e' : Expr) : Prop :=
  R String (e.text w.options.target) (e'.text w'.options.target)
    ∧ R String (e.condition w.options.target) (e'.condition w'.options.target)

variable {r : Placing} {R : ∀ α : Type, Except Fault α → Except Fault α → Prop} {w w' : Setting}
  (h : Parallel r R w w')
include h

theorem parallel_value {e e' : Expr} (he : e.Alike r e') (hpair : Paired R w w' e e') :
    R String (e.value w.options.target) (e'.value w'.options.target) := by
  unfold value
  rw [he.embed_eq]
  exact h.map hpair.1 _

theorem parallel_argument {e e' : Expr} (he : e.Alike r e') (hpair : Paired R w w' e e') :
    R String (e.argument w.options.target) (e'.argument w'.options.target) := by
  have hvalue := parallel_value h he hpair
  cases he with
  | @literal lit s s' hs =>
    cases lit with
    | number n =>
      unfold argument embedArgument
      by_cases hbare : Numeral.isBare n = true
      · simp only [hbare, if_true]
        exact h.ok n
      · simp only [hbare]
        exact hvalue
    | _ => exact hvalue
  | _ => exact hvalue

theorem parallel_literalText (value : Literal) {s s' : Span} (hs : r none s s') :
    R String (literalText value s) (literalText value s') := by
  unfold literalText
  cases value.text.toList.find? isActive with
  | some c => exact h.notSupportedFor _ _ hs
  | none => exact h.ok _

/-- A comparison has an operator in every shell. -/
theorem parallel_comparison {op : BinaryOp} (hop : op.isComparison = true) (s s' : Span)
    {left left' right right' : Except Fault String} (hleft : R String left left')
    (hright : R String right right') :
    R String (comparison op s left right) (comparison op s' left' right') := by
  have hoperator : R String (testOperator op s) (testOperator op s') := by
    cases op <;> first | exact h.ok _ | cases hop
  exact h.bind hoperator fun _ => h.bind hleft fun _ => h.bind hright fun _ => h.ok _

theorem parallel_arithmetic {op : BinaryOp} {s s' : Span} (hs : r (some op) s s')
    {left left' right right' : Except Fault String} (hleft : R String left left')
    (hright : R String right right') :
    R String (arithmetic w.options.target op s left right)
      (arithmetic w'.options.target op s' left' right') :=
  h.bind (h.operator op hs) fun _ => h.bind hleft fun _ => h.bind hright fun _ => h.ok _

theorem parallel_memberText {object object' : Expr} (hobject : object.Alike r object')
    (property : String) {s s' : Span} (hs : r none s s') :
    R String (memberText object property s) (memberText object' property s') := by
  cases hobject with
  | metaProperty =>
    unfold memberText
    dsimp only
    split
    · split
      · exact h.ok _
      · split
        · exact h.ok _
        · exact h.notSupportedFor _ _ hs
    · exact h.notSupportedFor _ _ hs
  | _ => exact h.notSupportedFor _ _ hs

/-- A call by name has the words of its arguments, a method that prints has
their values, and every other call is at fault. -/
theorem parallel_call {callee callee' : Expr} {arguments arguments' : List Expr} {s s' : Span}
    (hcallee : callee.Alike r callee') (hs : r none s s')
    (harguments : List.Forall₂ (fun e e' => e.Alike r e' ∧ Paired R w w' e e')
      arguments arguments') :
    R String (callText callee arguments s (texts w.options.target arguments))
      (callText callee' arguments' s' (texts w'.options.target arguments')) := by
  have hwords : List.Forall₂ (fun e e' => R String (e.argument w.options.target)
      (e'.argument w'.options.target)) arguments arguments' :=
    harguments.imp fun _ _ he => parallel_argument h he.1 he.2
  have hvalues : List.Forall₂ (fun e e' => R String (e.value w.options.target)
      (e'.value w'.options.target)) arguments arguments' :=
    harguments.imp fun _ _ he => parallel_value h he.1 he.2
  cases hcallee with
  | identifier =>
    rw [callText_identifier, callText_identifier]
    exact h.map (h.mapM hwords) _
  | member hobject =>
    rw [callText_member, callText_member, hobject.redirection?_eq]
    cases redirection? _ _ with
    | some redirection => exact h.map (h.mapM hvalues) _
    | none => exact h.notSupportedFor _ _ hs
  | _ => exact h.notSupportedFor _ _ hs

/-- **Alike expressions are written alike.** -/
theorem Alike.paired {e e' : Expr} (he : e.Alike r e') : Paired R w w' e e' := by
  induction e using Expr.induction_on generalizing e' with
  | identifier name s =>
    cases he
    rw [Paired, text, text, condition, condition]
    exact ⟨h.ok _, h.ok _⟩
  | literal value s =>
    cases he with
    | literal hs =>
      rw [Paired, text, text, condition, condition]
      exact ⟨parallel_literalText h value hs, h.ok _⟩
  | binary op left right s ihl ihr =>
    cases he with
    | @binary _ _ left' _ right' _ s' hleft hright hs =>
      have hl := parallel_value h hleft (ihl hleft)
      have hr := parallel_value h hright (ihr hright)
      rw [Paired, text, text, condition, condition]
      by_cases hop : op.isComparison = true
      · simp only [hop, if_true]
        have htest := parallel_comparison h hop s s' hl hr
        exact ⟨h.map htest _, htest⟩
      · simp only [hop]
        have hnumber := parallel_arithmetic h hs hl hr
        exact ⟨hnumber, h.map hnumber _⟩
  | logical op left right s ihl ihr =>
    cases he with
    | logical hleft hright hs =>
      have hl := (ihl hleft).2
      have hr := (ihr hright).2
      rw [Paired, text, text, condition, condition, hleft.needsBraces_eq, hright.needsBraces_eq]
      exact ⟨h.bind hl fun _ => h.bind hr fun _ => h.ok _,
        h.bind hl fun _ => h.bind hr fun _ => h.ok _⟩
  | not argument s ih =>
    cases he with
    | not hargument hs =>
      have ha := (ih hargument).2
      rw [Paired, text, text, condition, condition, hargument.needsBraces_eq]
      exact ⟨h.bind ha fun _ => h.ok _, h.bind ha fun _ => h.ok _⟩
  | call callee arguments s _ iha =>
    cases he with
    | call hcallee harguments hs =>
      have hcall := parallel_call h hcallee hs
        (forall₂_of_mem harguments fun e he _ halike => ⟨halike, iha e he halike⟩)
      rw [Paired, text, text, condition, condition]
      exact ⟨hcall, hcall⟩
  | member object property s _ =>
    cases he with
    | member hobject hs =>
      have hmember := parallel_memberText h hobject property hs
      rw [Paired, text, text, condition, condition]
      exact ⟨hmember, h.map hmember _⟩
  | metaProperty owner property s =>
    cases he with
    | metaProperty hs =>
      rw [Paired, text, text, condition, condition]
      exact ⟨h.fault _ _ hs, h.fault _ _ hs⟩
  | unsupported kind s =>
    cases he with
    | unsupported hs =>
      rw [Paired, text, text, condition, condition]
      exact ⟨h.fault _ _ hs, h.fault _ _ hs⟩

end Expr

/-! ## The lines of a statement -/

section Lines

variable {r : Placing} {R : ∀ α : Type, Except Fault α → Except Fault α → Prop} {w w' : Setting}
  (h : Parallel r R w w')
include h

theorem Expr.Alike.paired_value {e e' : Expr} (he : e.Alike r e') :
    R String (e.value w.options.target) (e'.value w'.options.target) :=
  Expr.parallel_value h he (he.paired h)

theorem parallel_bindings (function : String) (index : Nat) {params params' : List Pattern}
    (hparams : List.Forall₂ (Pattern.Alike r) params params') :
    R (List String) (bindings function index params) (bindings function index params') := by
  induction hparams generalizing index with
  | nil => exact h.ok []
  | cons hparam _ ih =>
    cases hparam with
    | identifier => exact h.bind (ih (index + 1)) fun _ => h.ok _
    | unsupported hs => exact h.notSupportedFor _ _ hs

theorem parallel_declaratorLine {d d' : Declarator} (hd : d.Alike r d') :
    R String (declaratorLine w.options.target d) (declaratorLine w'.options.target d') := by
  obtain ⟨target, init, span⟩ := d
  obtain ⟨target', init', span'⟩ := d'
  obtain ⟨htarget, hinit, -⟩ := hd
  unfold declaratorLine
  dsimp only at htarget hinit ⊢
  cases htarget with
  | unsupported hs => exact h.notSupportedFor _ _ hs
  | identifier =>
    cases hinit with
    | none => exact h.ok _
    | some he => exact h.map (he.paired_value h) _

theorem parallel_echoLine {e e' : Expr} (he : e.Alike r e') :
    R String (echoLine w.options.target e) (echoLine w'.options.target e') :=
  h.map (he.paired_value h) _

theorem parallel_caseLabel {test test' : Option Expr}
    (htest : Option.Rel (Expr.Alike r) test test') :
    R String (caseLabel w.options.target test) (caseLabel w'.options.target test') := by
  cases htest with
  | none => exact h.ok _
  | some he => exact he.paired_value h

end Lines

/-! ## Statements -/

section Shape

variable {r : Placing} {α : Type} {P : α → α → Prop}

theorem isEmpty_eq_of_forall₂ {as bs : List α} (h : List.Forall₂ P as bs) :
    bs.isEmpty = as.isEmpty := by
  cases h <;> rfl

theorem isNone_eq_of_rel {a b : Option α} (h : Option.Rel P a b) : b.isNone = a.isNone := by
  cases h <;> rfl

/-- Alike statements end a case alike. -/
theorem endsCase_eq_of_forall₂ {stmts stmts' : List Stmt}
    (h : List.Forall₂ (Stmt.Alike r) stmts stmts') : endsCase stmts' = endsCase stmts := by
  induction h with
  | nil => rfl
  | cons hs hrest ih =>
    cases hrest with
    | nil => cases hs <;> rfl
    | cons =>
      unfold endsCase at *
      rw [List.getLast?_cons_cons, List.getLast?_cons_cons]
      exact ih

end Shape

namespace Stmt

/-- **Statements for which related lines are written**, from every nesting
and also as an alternate. -/
def Paired (R : ∀ α : Type, Except Fault α → Except Fault α → Prop) (w w' : Setting)
    (s s' : Stmt) : Prop :=
  ∀ n : Nesting, R (List String) (outcome (s.emit w) n) (outcome (s'.emit w') n)
    ∧ R (List String) (outcome (emitAlternate w (some s)) n)
        (outcome (emitAlternate w' (some s')) n)

variable {r : Placing} {R : ∀ α : Type, Except Fault α → Except Fault α → Prop} {w w' : Setting}
  (h : Parallel r R w w') (n : Nesting)
include h

theorem parallel_emitAll {stmts stmts' : List Stmt}
    (hstmts : List.Forall₂ (Paired R w w') stmts stmts') :
    R (List String) (outcome (emitAll w stmts) n) (outcome (emitAll w' stmts') n) := by
  induction hstmts with
  | nil =>
    rw [outcome_emitAll_nil, outcome_emitAll_nil]
    exact h.ok []
  | cons hs _ ih =>
    rw [outcome_emitAll_cons, outcome_emitAll_cons]
    exact h.bind (hs n).1 fun _ => h.bind ih fun _ => h.ok _

theorem parallel_emitFunction {stmts stmts' : List Stmt}
    (hstmts : List.Forall₂ (fun s s' => s.Alike r s' ∧ Paired R w w' s s') stmts stmts') :
    R (List String) (outcome (emitFunction w stmts) n) (outcome (emitFunction w' stmts') n) := by
  induction hstmts with
  | nil =>
    rw [outcome_emitFunction_nil, outcome_emitFunction_nil]
    exact h.ok []
  | @cons s s' ss ss' hs hrest ih =>
    obtain ⟨value, span, rfl, rfl⟩ | hcons := lastReturn_or s ss
    · cases hrest
      obtain ⟨halike, -⟩ := hs
      cases halike with
      | ret hargument =>
        cases hargument with
        | some he =>
          rw [outcome_emitFunction_ret, outcome_emitFunction_ret]
          exact h.map (parallel_echoLine h he) _
    · have hcons' : ∀ value span, s' = .ret (some value) span → ss' ≠ [] := by
        rintro value span rfl rfl
        cases hrest
        obtain ⟨halike, -⟩ := hs
        cases halike with
        | ret hargument =>
          cases hargument
          exact hcons _ _ rfl rfl
      rw [outcome_emitFunction_cons w n hcons, outcome_emitFunction_cons w' n hcons']
      exact h.bind (hs.2 n).1 fun _ => h.bind ih fun _ => h.ok _

theorem parallel_emitCase {stmts stmts' : List Stmt}
    (hstmts : List.Forall₂ (fun s s' => s.Alike r s' ∧ Paired R w w' s s') stmts stmts') :
    R (List String) (outcome (emitCase w stmts) n) (outcome (emitCase w' stmts') n) := by
  induction hstmts with
  | nil =>
    rw [outcome_emitCase_nil, outcome_emitCase_nil]
    exact h.ok []
  | @cons s s' ss ss' hs hrest ih =>
    obtain ⟨span, rfl, rfl⟩ | hcons := lastExit_or s ss
    · cases hrest
      cases hs.1
      rw [outcome_emitCase_exit, outcome_emitCase_exit]
      exact h.ok []
    · have hcons' : ∀ span, s' = .exit span → ss' ≠ [] := by
        rintro span rfl rfl
        cases hrest
        cases hs.1
        exact hcons _ rfl rfl
      rw [outcome_emitCase_cons w n hcons, outcome_emitCase_cons w' n hcons']
      exact h.bind (hs.2 n).1 fun _ => h.bind ih fun _ => h.ok _

theorem parallel_emitCases {cases cases' : List SwitchCase}
    (hcases : List.Forall₂ (SwitchCase.Alike r) cases cases')
    (hstmts : ∀ c ∈ cases, ∀ s ∈ c.consequent, ∀ s', s.Alike r s' → Paired R w w' s s')
    (labels : List String) (hasDefault : Bool) :
    R (List String × Option (List String))
      (outcome (SwitchCase.emitAll w labels hasDefault cases) n)
      (outcome (SwitchCase.emitAll w' labels hasDefault cases') n) := by
  induction hcases generalizing labels hasDefault with
  | nil =>
    rw [SwitchCase.outcome_emitAll_nil, SwitchCase.outcome_emitAll_nil]
    exact h.ok _
  | cons hc hrest ih =>
    rw [List.forall_mem_cons] at hstmts
    cases hc with
    | mk htest hconsequent hs =>
      have hown := parallel_emitCase h n
        (forall₂_of_mem hconsequent fun s hmem s' halike => ⟨halike, hstmts.1 s hmem s' halike⟩)
      rw [SwitchCase.outcome_emitAll_cons, SwitchCase.outcome_emitAll_cons,
        isEmpty_eq_of_forall₂ hconsequent, isEmpty_eq_of_forall₂ hrest, isNone_eq_of_rel htest,
        endsCase_eq_of_forall₂ hconsequent, h.indent]
      refine h.bind (parallel_caseLabel h htest) fun label => ?_
      split
      · exact ih hstmts.2 _ _
      · split
        · exact h.notSupportedFor _ _ hs
        · exact h.bind hown fun _ => h.bind (ih hstmts.2 _ _) fun _ => h.ok _

/-- As an alternate, a statement other than an `if` is written as it is on
its own. -/
theorem paired_of_ne_branch {s s' : Stmt} (halike : s.Alike r s')
    (hs : ∀ test consequent alternate span, s ≠ .branch test consequent alternate span)
    (hemit : ∀ n : Nesting, R (List String) (outcome (s.emit w) n) (outcome (s'.emit w') n)) :
    Paired R w w' s s' := by
  have hs' : ∀ test consequent alternate span, s' ≠ .branch test consequent alternate span := by
    rintro test consequent alternate span rfl
    cases halike
    exact hs _ _ _ _ rfl
  refine fun n => ⟨hemit n, ?_⟩
  rw [outcome_emitAlternate_else w n hs, outcome_emitAlternate_else w' n hs', h.indent]
  exact h.map (hemit n) _

theorem parallel_emitAlternate {alternate alternate' : Option Stmt}
    (halternate : Option.Rel (Alike r) alternate alternate')
    (hpair : ∀ s ∈ alternate, ∀ s', s.Alike r s' → Paired R w w' s s') :
    R (List String) (outcome (emitAlternate w alternate) n)
      (outcome (emitAlternate w' alternate') n) := by
  cases halternate with
  | none =>
    rw [outcome_emitAlternate_none, outcome_emitAlternate_none]
    exact h.ok []
  | some hs => exact (hpair _ rfl _ hs n).2

/-- **Alike statements are written alike.** -/
theorem Alike.paired {s s' : Stmt} (halike : s.Alike r s') : Paired R w w' s s' := by
  induction s using Stmt.induction_on generalizing s' with
  | block body span ih =>
    refine paired_of_ne_branch h halike nofun fun n => ?_
    cases halike with
    | block hbody =>
      rw [outcome_block, outcome_block]
      exact parallel_emitAll h n (forall₂_of_mem hbody fun s hs _ halike => ih s hs halike)
  | empty span =>
    refine paired_of_ne_branch h halike nofun fun n => ?_
    cases halike
    rw [outcome_empty, outcome_empty]
    exact h.ok []
  | expression value span =>
    refine paired_of_ne_branch h halike nofun fun n => ?_
    cases halike with
    | expression hvalue hs =>
      have htext := (hvalue.paired h).1
      rw [outcome_expression, outcome_expression]
      cases hvalue with
      | call => exact h.map htext _
      | unsupported => exact h.map htext _
      | _ => exact h.notSupportedFor _ _ hs
  | branch test consequent alternate span ihc iha =>
    cases halike with
    | branch htest hconsequent halternate hs =>
      have hcondition := (htest.paired h).2
      have hrest := fun n => parallel_emitAlternate h n halternate
        fun s hs _ halike => iha s hs halike
      refine fun n => ⟨?_, ?_⟩
      · rw [outcome_branch, outcome_branch, h.indent]
        exact h.bind hcondition fun _ => h.bind (ihc hconsequent n.inIf).1 fun _ =>
          h.bind (hrest n.inIf) fun _ => h.ok _
      · rw [outcome_emitAlternate_branch, outcome_emitAlternate_branch, h.indent]
        exact h.bind hcondition fun _ => h.bind (ihc hconsequent n).1 fun _ =>
          h.bind (hrest n) fun _ => h.ok _
  | function name params body span ih =>
    refine paired_of_ne_branch h halike nofun fun n => ?_
    cases halike with
    | function hparams hbody hs =>
      rw [outcome_function, outcome_function, h.indent]
      refine h.bind (parallel_bindings h name 1 hparams) fun _ => ?_
      exact h.bind (parallel_emitFunction h n.inFunction
        (forall₂_of_mem hbody fun s hs _ halike => ⟨halike, ih s hs halike⟩)) fun _ => h.ok _
  | ret argument span =>
    refine paired_of_ne_branch h halike nofun fun n => ?_
    cases halike with
    | ret hargument hs =>
      rw [outcome_ret, outcome_ret]
      split
      · exact h.notSupportedFor _ _ hs
      · cases hargument with
        | none => exact h.ok _
        | some he => exact h.map (parallel_echoLine h he) _
  | declaration kind declarators span =>
    refine paired_of_ne_branch h halike nofun fun n => ?_
    cases halike with
    | declaration hdeclarators hs =>
      rw [outcome_declaration, outcome_declaration]
      exact h.mapM (hdeclarators.imp fun _ _ hd => parallel_declaratorLine h hd)
  | switch discriminant cases span ih =>
    refine paired_of_ne_branch h halike nofun fun n => ?_
    cases halike with
    | switch hdiscriminant hcases hs =>
      rw [outcome_switch, outcome_switch]
      refine h.bind (hdiscriminant.paired_value h) fun _ => ?_
      exact h.bind (parallel_emitCases h n.inSwitch hcases
        (fun c hc s hs _ halike => ih c hc s hs halike) [] false) fun _ => h.ok _
  | importModule source span =>
    refine paired_of_ne_branch h halike nofun fun n => ?_
    cases halike
    rw [outcome_importModule, outcome_importModule]
    exact h.map (h.modules source) _
  | exit span =>
    refine paired_of_ne_branch h halike nofun fun n => ?_
    cases halike with
    | exit hs =>
      rw [outcome_exit, outcome_exit]
      exact h.notSupportedFor _ _ hs
  | unsupported kind span =>
    refine paired_of_ne_branch h halike nofun fun n => ?_
    cases halike with
    | unsupported hs =>
      rw [outcome_unsupported, outcome_unsupported]
      exact h.fault _ _ hs

theorem parallel_chunks {stmts stmts' : List Stmt} (hstmts : List.Forall₂ (Alike r) stmts stmts') :
    R (List String) (outcome (chunks w stmts) n) (outcome (chunks w' stmts') n) := by
  induction hstmts with
  | nil =>
    rw [outcome_chunks_nil, outcome_chunks_nil]
    exact h.ok []
  | cons hs _ ih =>
    rw [outcome_chunks_cons, outcome_chunks_cons]
    exact h.bind (hs.paired h n).1 fun _ => h.bind ih fun _ => h.ok _

end Stmt

/-- **Runs over alike programs have related outcomes.** -/
theorem Program.chunks_parallel {r : Placing}
    {R : ∀ α : Type, Except Fault α → Except Fault α → Prop} {w w' : Setting}
    (h : Parallel r R w w') {p p' : Program} (halike : p.Alike r p') :
    R (List String) (p.chunks w) (p'.chunks w') :=
  Stmt.parallel_chunks h {} halike.body

/-! ## The shell matters to powers only -/

/-- A setting for another shell. -/
def Setting.withTarget (w : Setting) (target : Target) : Setting :=
  { w with options := { w.options with target } }

/-- There is a power in a program at a span. -/
def Program.HasPowerAt (p : Program) (span : Span) : Prop :=
  ∃ left right role, Position.expression (.binary .exp left right span) role ∈ p.positions

/-- **Outcomes that differ at a power only**: they are the same, or the first
is a fault at one of some spans, because of the operator there. -/
def SameUpToPower (spans : Span → Prop) (α : Type) (x y : Except Fault α) : Prop :=
  x = y ∨ ∃ span, spans span ∧ x = .error (.invalidOperator .exp "POSIX shell" span)

/-- One span, which for a power is among some spans. -/
def Placing.powersAt (spans : Span → Prop) : Placing :=
  fun tag s s' => s = s' ∧ (tag = some .exp → spans s)

theorem arithmeticOperator_of_ne_exp {op : BinaryOp} (h : op ≠ .exp) (target target' : Target)
    (span : Span) : arithmeticOperator op target span = arithmeticOperator op target' span := by
  cases op with
  | exp => exact absurd rfl h
  | _ => rfl

theorem sameUpToPower_operator {spans : Span → Prop} {op : BinaryOp} {s s' : Span}
    (h : Placing.powersAt spans (some op) s s') :
    SameUpToPower spans String (arithmeticOperator op .posix s)
      (arithmeticOperator op .bash s') := by
  obtain ⟨rfl, hat⟩ := h
  by_cases hop : op = .exp
  · subst hop
    exact .inr ⟨s, hat rfl, rfl⟩
  · exact .inl (arithmeticOperator_of_ne_exp hop .posix .bash s)

/-- The runs for the two shells, over one program. -/
theorem parallel_powersAt (spans : Span → Prop) (w : Setting) :
    Parallel (.powersAt spans) (SameUpToPower spans) (w.withTarget .posix)
      (w.withTarget .bash) where
  ok _ := .inl rfl
  bind := by
    rintro α β x y f g (rfl | ⟨span, hspan, rfl⟩) hfg
    · cases x with
      | ok a => exact hfg a
      | error fault => exact .inl rfl
    · exact .inr ⟨span, hspan, rfl⟩
  fault _ _ _ _ hs := .inl (by rw [hs.1])
  operator _ _ _ hs := sameUpToPower_operator hs
  modules _ := .inl rfl
  indent := rfl

theorem Program.sameUpToPower (p : Program) (w : Setting) :
    SameUpToPower p.HasPowerAt (List String) (p.chunks (w.withTarget .posix))
      (p.chunks (w.withTarget .bash)) := by
  refine chunks_parallel (parallel_powersAt p.HasPowerAt w) (alike_self (fun _ => ?_) ?_)
  · exact ⟨rfl, fun hexp => by cases hexp⟩
  · intro x hx op left right span role heq
    refine ⟨rfl, fun hexp => ⟨left, right, role, ?_⟩⟩
    cases hexp
    rw [← heq]
    exact hx

/-- **The shell matters to powers only.** What a program becomes for the
smaller shell it becomes for the larger one, too. A program that is only
accepted for the larger shell fails for the smaller one because of the
operator `**`, at a power of the program. So a program without powers is
accepted for both shells or for neither, with the same outcome. -/
theorem shell_matters_to_powers (p : Program) (w : Setting) :
    (∀ chunks, p.chunks (w.withTarget .posix) = .ok chunks →
        p.chunks (w.withTarget .bash) = .ok chunks)
      ∧ (∀ chunks fault, p.chunks (w.withTarget .bash) = .ok chunks →
        p.chunks (w.withTarget .posix) = .error fault →
          ∃ span, fault = .invalidOperator .exp "POSIX shell" span ∧ p.HasPowerAt span)
      ∧ ((∀ span, ¬p.HasPowerAt span) →
        p.chunks (w.withTarget .posix) = p.chunks (w.withTarget .bash)) := by
  refine ⟨fun chunks hposix => ?_, fun chunks fault hbash hposix => ?_, fun hnone => ?_⟩
  · obtain heq | ⟨span, -, herror⟩ := p.sameUpToPower w
    · rw [← heq, hposix]
    · cases hposix.symm.trans herror
  · obtain heq | ⟨span, hspan, herror⟩ := p.sameUpToPower w
    · cases hposix.symm.trans (heq.trans hbash)
    · exact ⟨span, Except.error.inj (hposix.symm.trans herror), hspan⟩
  · obtain heq | ⟨span, hspan, -⟩ := p.sameUpToPower w
    · exact heq
    · exact absurd hspan (hnone span)

/-- The call `f(a ** 2)`, in a text that has some number of blanks before
it. -/
def squareCall (blanks : Nat) : Program :=
  let place (start stop : Nat) : Span := ⟨blanks + start, blanks + stop⟩
  let square : Expr :=
    .binary .exp (.identifier "a" (place 2 3)) (.literal (.number "2") (place 7 8)) (place 2 8)
  { body := [.expression (.call (.identifier "f" (place 0 1)) [square] (place 0 9)) (place 0 10)]
    span := ⟨0, blanks + 10⟩ }

theorem squareCall_shells :
    (squareCall 0).chunks (Setting.withTarget { modules := fun _ => .ok "" } .bash)
        = .ok ["f $(( \"$a\" ** \"2\" ))"]
      ∧ ∃ fault, (squareCall 0).chunks (Setting.withTarget { modules := fun _ => .ok "" } .posix)
          = .error fault
        ∧ ∃ span, fault = .invalidOperator .exp "POSIX shell" span
          ∧ (squareCall 0).HasPowerAt span := by
  refine ⟨rfl, _, rfl, ?_⟩
  exact (shell_matters_to_powers (squareCall 0) { modules := fun _ => .ok "" }).2.1 _ _ rfl rfl

end ScriptToShell
