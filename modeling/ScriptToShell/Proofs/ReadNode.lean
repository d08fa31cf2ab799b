import ScriptToShell.Grammar.Body
import ScriptToShell.Grammar.Sequence
import ScriptToShell.Proofs.Parallel
import ScriptToShell.Proofs.Tandem

/-!
# Nodes that are read in tandem

Two readers in tandem that give nodes give the same node twice, but for its
place: every span of the second is that of the first, moved on
(`Placing.moved`). The first node stands between the places where its reader
started and stopped, and so do the nodes below it (`Twin`). Lists of nodes are
the same with one place behind the other (`TwinList`).

The rules of the grammar take the readers for what they contain as an
argument. Two sets of readers **agree** up to a distance from the end of a
text if from there on they are in tandem (`Readers.Agree`); a rule takes a
character before it uses them, so it works with readers that agree up to one
character less.
-/

namespace ScriptToShell

open Scan

/-- **Spans that are moved on** by a number of bytes. -/
def Placing.moved (shift : Nat) : Placing := fun _ s s' => s' = s.moved shift

/-- **A sort of nodes**, with what it means that two of them are alike. -/
class IsNode (α : Type) where
  /-- The value as a node. -/
  node : α → Node
  /-- Whether two values are alike. -/
  Alike : Placing → α → α → Prop

instance : IsNode Expr := ⟨.expression, Expr.Alike⟩

instance : IsNode Pattern := ⟨.pattern, Pattern.Alike⟩

instance : IsNode Declarator := ⟨.declarator, Declarator.Alike⟩

instance : IsNode Stmt := ⟨.statement, Stmt.Alike⟩

instance : IsNode SwitchCase := ⟨.switchCase, SwitchCase.Alike⟩

section Twins

variable {α : Type} [IsNode α] {text : List Char} {shift i i' j j' l : Nat} {a a' b b' : α}
  {as as' bs bs' : List α}

/-- **A node that is read twice**, once moved on: the two are alike, and the
first stands between two places. -/
structure Twin (text : List Char) (shift i : Nat) (a a' : α) (j : Nat) : Prop where
  /-- The second node is the first, moved on. -/
  alike : IsNode.Alike (.moved shift) a a'
  /-- The first node stands between the places. -/
  between : (IsNode.node a).Between text i j

/-- **Nodes that are read twice**, one behind the other. -/
structure TwinList (text : List Char) (shift i : Nat) (as as' : List α) (j : Nat) : Prop where
  /-- The second nodes are the first, moved on. -/
  alike : List.Forall₂ (IsNode.Alike (.moved shift)) as as'
  /-- The first nodes are in a row. -/
  row : Node.Row text i j (as.map IsNode.node)

theorem Twin.widen (h : Twin text shift i a a' j) (hi : i' ≤ i) (hj : j ≤ j') :
    Twin text shift i' a a' j' :=
  ⟨h.alike, h.between.widen hi hj⟩

/-- A node with the span of the whole, over nodes in a row. -/
theorem Twin.of_row (halike : IsNode.Alike (.moved shift) a a')
    (hspan : (IsNode.node a).span = spanAt text i j)
    (hrow : Node.Row text i j (IsNode.node a).children) : Twin text shift i a a' j :=
  ⟨halike, .of_row hspan hrow⟩

namespace TwinList

theorem nil (h : i ≤ j) : TwinList text shift i ([] : List α) [] j := ⟨.nil, .nil h⟩

theorem cons (h : Twin text shift i a a' j) (hs : TwinList text shift j as as' l) :
    TwinList text shift i (a :: as) (a' :: as') l :=
  ⟨.cons h.alike hs.alike, .cons h.between hs.row⟩

theorem single (h : Twin text shift i a a' j) : TwinList text shift i [a] [a'] j :=
  cons h (nil (Nat.le_refl j))

theorem append (h : TwinList text shift i as as' j) (h' : TwinList text shift j bs bs' l) :
    TwinList text shift i (as ++ bs) (as' ++ bs') l :=
  ⟨List.rel_append h.alike h'.alike, by
    rw [List.map_append]
    exact h.row.append h'.row⟩

theorem widen (h : TwinList text shift i as as' j) (hi : i' ≤ i) (hj : j ≤ j') :
    TwinList text shift i' as as' j' :=
  ⟨h.alike, h.row.widen hi hj⟩

theorem le (h : TwinList text shift i as as' j) : i ≤ j := h.row.le

/-- Without the nodes at the head that a test takes, which cannot tell the two
readings apart. -/
theorem dropWhile {test : α → Bool} (h : TwinList text shift i as as' j)
    (htest : ∀ a a', IsNode.Alike (.moved shift) a a' → test a' = test a) :
    TwinList text shift i (as.dropWhile test) (as'.dropWhile test) j := by
  constructor
  · have halike := h.alike
    clear h
    induction halike with
    | nil => exact .nil
    | @cons a a' as as' ha has ih =>
      rw [List.dropWhile_cons, List.dropWhile_cons, htest a a' ha]
      split
      · exact ih
      · exact .cons ha has
  · refine Node.Row.of_suffix ((as.takeWhile test).map IsNode.node) ?_
    rw [← List.map_append, List.takeWhile_append_dropWhile]
    exact h.row

/-- Lists that are read one after the other, as one list. -/
theorem of_rounds {ass ass' : List (List α)} (h : Rounds (TwinList text shift) i ass ass' j) :
    TwinList text shift i ass.flatten ass'.flatten j := by
  induction h with
  | nil => exact nil (Nat.le_refl _)
  | cons head _ ih => exact head.append ih

/-- Nodes that are read one after the other. -/
theorem of_rounds_single (h : Rounds (Twin text shift) i as as' j) :
    TwinList text shift i as as' j := by
  induction h with
  | nil => exact nil (Nat.le_refl _)
  | cons head _ ih => exact cons head ih

/-- Lists that are read one after the other, each of them not right where the
last one stopped: then the first of them decides where all start. -/
theorem of_rounds_from {low : Nat → Nat} (hlow : ∀ j, j ≤ low j) {ass ass' : List (List α)}
    (h : Rounds (fun j => TwinList text shift (low j)) i ass ass' j) :
    (ass = [] ∧ ass' = [] ∧ j = i) ∨ TwinList text shift (low i) ass.flatten ass'.flatten j := by
  cases h with
  | nil => exact .inl ⟨rfl, rfl, rfl⟩
  | cons head tail =>
    refine .inr (head.append (of_rounds (tail.mono fun l as as' m htwins => ?_)))
    exact htwins.widen (hlow l) (Nat.le_refl m)

end TwinList

/-- A sort of nodes that may be made of a span alone. -/
structure IsLeaf (make : Span → α) : Prop where
  /-- The span is that of the node. -/
  span : ∀ s, (IsNode.node (make s)).span = s
  /-- Nothing stands below it. -/
  children : ∀ s, (IsNode.node (make s)).children = []
  /-- Two of them are alike if their spans are related. -/
  alike : ∀ {r : Placing} {s s' : Span}, r none s s' → IsNode.Alike r (make s) (make s')

theorem IsLeaf.twin {make : Span → α} (h : IsLeaf make) (hij : i ≤ j) :
    Twin text shift i (make (spanAt text i j)) (make ((spanAt text i j).moved shift)) j :=
  ⟨h.alike rfl, .leaf (h.span _) hij (h.children _)⟩

/-- Marks as nodes. -/
theorem IsLeaf.twinList {make : Span → α} (h : IsLeaf make) {spans : List Span}
    (hrow : Span.Row text i j spans) :
    TwinList text shift i (spans.map make) ((spans.map (Span.moved shift)).map make) j := by
  refine ⟨?_, ?_⟩
  · rw [List.map_map, List.forall₂_map_left_iff, List.forall₂_map_right_iff]
    exact List.forall₂_same.2 fun s _ => h.alike rfl
  · rw [List.map_map]
    exact hrow.nodes h.span h.children

end Twins

theorem Expr.isLeaf_unsupported (kind : NodeKind) : IsLeaf (Expr.unsupported kind) :=
  ⟨fun _ => rfl, fun _ => rfl, .unsupported⟩

theorem Expr.isLeaf_identifier (name : String) : IsLeaf (Expr.identifier name) :=
  ⟨fun _ => rfl, fun _ => rfl, .identifier⟩

theorem Expr.isLeaf_literal (value : Literal) : IsLeaf (Expr.literal value) :=
  ⟨fun _ => rfl, fun _ => rfl, .literal⟩

theorem Expr.isLeaf_metaProperty (owner property : String) :
    IsLeaf (Expr.metaProperty owner property) :=
  ⟨fun _ => rfl, fun _ => rfl, .metaProperty⟩

theorem Pattern.isLeaf_identifier (name : String) : IsLeaf (Pattern.identifier name) :=
  ⟨fun _ => rfl, fun _ => rfl, .identifier⟩

theorem Pattern.isLeaf_unsupported (kind : NodeKind) : IsLeaf (Pattern.unsupported kind) :=
  ⟨fun _ => rfl, fun _ => rfl, .unsupported⟩

theorem Stmt.isLeaf_unsupported (kind : NodeKind) : IsLeaf (Stmt.unsupported kind) :=
  ⟨fun _ => rfl, fun _ => rfl, .unsupported⟩

theorem Stmt.isLeaf_empty : IsLeaf Stmt.empty := ⟨fun _ => rfl, fun _ => rfl, .empty⟩

theorem Stmt.isLeaf_exit : IsLeaf Stmt.exit := ⟨fun _ => rfl, fun _ => rfl, .exit⟩

theorem Stmt.isLeaf_importModule (source : String) : IsLeaf (Stmt.importModule source) :=
  ⟨fun _ => rfl, fun _ => rfl, .importModule⟩

/-! ## Readers that agree -/

namespace Grammar

/-- **An operand that is read twice**, with the same form. -/
structure OperandTwin (text : List Char) (shift i : Nat) (o o' : Operand) (j : Nat) : Prop where
  /-- The forms are the same. -/
  form : o'.form = o.form
  /-- The expressions are twins. -/
  expr : Twin text shift i o.expr o'.expr j

/-- **Readers that agree** on a text from a distance to its end on. A
statement is read from one character nearer to the end, since it may start with
an expression; an element of markup, which starts with two characters of its
own, from one character further away. -/
structure Readers.Agree (text : List Char) (shift depth : Nat) (R R' : Readers) : Prop where
  operand : ∀ semi i, text.length ≤ i + depth →
    Tandem text shift i (R.operand semi) (R'.operand semi) (Past i 1 (OperandTwin text shift i))
  expression : ∀ semi bound i, text.length ≤ i + depth →
    Tandem text shift i (R.expression semi bound) (R'.expression semi bound)
      (Past i 1 (OperandTwin text shift i))
  pattern : ∀ i, text.length ≤ i + depth →
    Tandem text shift i R.pattern R'.pattern (Past i 1 (Twin text shift i))
  element : ∀ i, text.length ≤ i + depth + 1 →
    Tandem text shift i R.element R'.element (Same i 1)
  statement : ∀ i, text.length < i + depth →
    Tandem text shift i R.statement R'.statement (Past i 1 (Twin text shift i))

variable {text : List Char} {shift depth i start : Nat} {R R' : Readers}

/-! ### Symbols -/

theorem tandem_symbol (symbol : String) (h : symbol ≠ "") :
    Tandem text shift i (Grammar.symbol symbol) (Grammar.symbol symbol) (Same i 1) :=
  tandem_trivia.next fun _ _ hj => (tandem_literal symbol h).since (by omega)

theorem tandem_nextSymbol (symbol : String) (h : symbol ≠ "") :
    Tandem text shift i (nextSymbol symbol) (nextSymbol symbol) (Same i 1) :=
  tandem_gap.next fun _ _ hj => (tandem_literal symbol h).since (by omega)

theorem tandem_nextKeyword (word : String) :
    Tandem text shift i (nextKeyword word) (nextKeyword word) (Same i 1) :=
  tandem_gap.next fun _ _ hj => (tandem_keyword word).since (by omega)

theorem tandem_equalsSign : Tandem text shift i equalsSign equalsSign (Same i 1) :=
  tandem_trivia.next fun _ _ hj => (tandem_literal "=" (by decide)).next fun _ _ hl =>
    .ahead ((Tandem.require _).stays (by omega))

/-- The span from a place to the one of the reader. -/
theorem tandem_spanFrom {β : Type} {f f' : Span → Reader β} {Q : β → β → Nat → Prop}
    (h : Tandem text shift i (f (spanAt text start i)) (f' ((spanAt text start i).moved shift)) Q) :
    Tandem text shift i (spanFrom (offsetAt text start) >>= f)
      (spanFrom (offsetAt text start + shift) >>= f') Q := h

/-! ### Lists of statements -/

/-- Whether a statement is a directive does not depend on its place. -/
theorem isDirective_eq_of_alike {s s' : Stmt} (h : s.Alike (.moved shift) s') :
    isDirective s' = isDirective s := by
  cases h with
  | expression hvalue hspan =>
    cases hvalue with
    | @literal value t t' ht =>
      cases value with
      | string text =>
        rw [show t' = t.moved shift from ht, show _ = Span.moved shift _ from hspan]
        simp [isDirective, Span.moved]
      | number | boolean | null => rfl
    | identifier | binary | logical | not | call | member | metaProperty | unsupported => rfl
  | block | empty | branch | function | ret | declaration | switch | importModule | exit
  | unsupported => rfl

/-- A statement with the marks before it. -/
def markedStatement (R : Readers) : Reader (List Stmt) := do
  let marks ← Reader.marks
  let statement ← R.statement
  return marks.map markStatement ++ [statement]

/-- Statements in groups, and the marks behind them. -/
def statementsOf (groups : Reader (List (List Stmt))) : Reader (List Stmt) := do
  let groups ← groups
  let last ← Reader.marks
  return groups.flatten ++ last.map markStatement

theorem statements_eq (R : Readers) :
    statements R = statementsOf (Reader.many (markedStatement R)) := rfl

/-- What is asked of a group: that it starts behind the white space that comes
first, and takes a character at least. -/
def GroupTwins (text : List Char) (shift i : Nat) (as as' : List Stmt) (j : Nat) : Prop :=
  i < j ∧ TwinList text shift (i + spaces (text.drop i)) as as' j

variable (hR : R.Agree text shift depth R')
include hR

theorem tandem_markedStatement (hi : text.length < i + depth) :
    Tandem text shift i (markedStatement R) (markedStatement R') (GroupTwins text shift i) := by
  refine tandem_marks.bind fun spans spans' j hmarks => ?_
  obtain ⟨rfl, hrow⟩ := hmarks
  have hj := hrow.le
  refine (hR.statement j (by omega)).bind fun s s' l ⟨hl, hs⟩ => .pure ⟨by omega, ?_⟩
  exact ((Stmt.isLeaf_unsupported markKind).twinList hrow).append (.single hs)

omit hR in
theorem tandem_statementsOf {groups groups' : Reader (List (List Stmt))}
    (h : Tandem text shift i groups groups' (Rounds (GroupTwins text shift) i)) :
    Tandem text shift i (statementsOf groups) (statementsOf groups')
      (TwinList text shift (i + spaces (text.drop i))) := by
  refine h.bind fun ass ass' j hrounds => ?_
  refine tandem_marks.bind fun spans spans' l hmarks => .pure ?_
  obtain ⟨rfl, hrow⟩ := hmarks
  have hlast : TwinList text shift (j + spaces (text.drop j)) (spans.map markStatement) _ l :=
    (Stmt.isLeaf_unsupported markKind).twinList hrow
  have hlow : ∀ j, j ≤ j + spaces (text.drop j) := fun _ => Nat.le_add_right _ _
  obtain ⟨rfl, rfl, rfl⟩ | htwins :=
    TwinList.of_rounds_from hlow (hrounds.mono fun _ _ _ _ h => h.2)
  · exact hlast
  · exact htwins.append (hlast.widen (hlow j) (Nat.le_refl _))

/-- **Statements and marks** are read in tandem, behind the white space that
comes first. -/
theorem tandem_statements (hi : text.length < i + depth) :
    Tandem text shift i (statements R) (statements R')
      (TwinList text shift (i + spaces (text.drop i))) :=
  tandem_statementsOf (.many (fun _ hj => tandem_markedStatement hR (by omega))
    fun _ _ _ _ h => Nat.le_of_lt h.1)

/-- Statements in braces. -/
theorem tandem_block (bare : Bool)
    (hi : text.length ≤ i + depth) :
    Tandem text shift i (block R bare) (block R' bare) (Past i 1 (TwinList text shift i)) := by
  refine (tandem_literal _ (by decide)).next fun _ j hj => ?_
  refine (tandem_statements hR (by omega)).bind fun body body' l hbody => ?_
  refine (tandem_literal _ (by decide)).next fun _ m hm => ?_
  refine (tandem_optionalSemicolon bare).next fun _ n hn => .pure ?_
  have hl := hbody.le
  refine ⟨by omega, ?_⟩
  exact (hbody.dropWhile fun s s' => isDirective_eq_of_alike).widen (by omega) (by omega)

/-! ### Lists of expressions -/

theorem tandem_expressionList (semi : Bool)
    (hi : text.length ≤ i + depth) :
    Tandem text shift i (expressionList R semi) (expressionList R' semi)
      (Past i 1 fun x x' j => x'.2 = x.2 ∧ Twin text shift i x.1 x'.1 j) := by
  refine (hR.expression semi 0 i hi).bind fun o o' j ho => ?_
  have hj := ho.1
  have hmore : ∀ l, j ≤ l → Tandem text shift l
      (do
        symbol ","
        Reader.gap
        R.assignment semi)
      (do
        symbol ","
        Reader.gap
        R'.assignment semi) (Ends l) := by
    intro l hl
    refine (tandem_symbol "," (by decide)).next fun _ m hm => tandem_gap.next fun _ n hn => ?_
    exact (hR.expression semi 0 n (by omega)).ends (by omega)
  refine (Tandem.many hmore fun _ _ _ _ h => h).bind fun more more' l hrounds => .pure ?_
  have hl := hrounds.le fun _ _ _ _ h => h
  exact ⟨by omega, hrounds.length_eq, ho.2.expr.widen (Nat.le_refl i) hl⟩

/-- A sequence of expressions, or the only one. -/
theorem tandem_expressions (semi : Bool)
    (hi : text.length ≤ i + depth) :
    Tandem text shift i (expressions R semi) (expressions R' semi)
      (Past i 1 (Twin text shift i)) := by
  refine .pos ((tandem_expressionList hR semi hi).bind fun x x' j hx => ?_)
  obtain ⟨first, others⟩ := x
  obtain ⟨first', others'⟩ := x'
  obtain ⟨hj, rfl, htwin⟩ := hx
  cases others' with
  | zero => exact .pure ⟨hj, htwin⟩
  | succ others =>
    exact tandem_spanFrom (.pure ⟨hj, (Expr.isLeaf_unsupported _).twin (by omega)⟩)

/-- An expression in parentheses. -/
theorem tandem_parenthesized (hi : text.length ≤ i + depth + 1) :
    Tandem text shift i (parenthesized R) (parenthesized R') (Past i 1 (Twin text shift i)) := by
  refine .pos ((tandem_literal "(" (by decide)).next fun _ j hj =>
    tandem_marks.bind fun marks marks' l hm => ?_)
  obtain ⟨rfl, hrow⟩ := hm
  have hl := hrow.le
  refine (tandem_expressionList hR false (by omega)).bind fun x x' m hx => ?_
  obtain ⟨first, others⟩ := x
  obtain ⟨first', others'⟩ := x'
  obtain ⟨hm, rfl, htwin⟩ := hx
  refine (tandem_symbol ")" (by decide)).next fun _ n hn => ?_
  cases hrow with
  | cons ha hab tail =>
    have htail := tail.le
    refine .pure ⟨by omega, ?_⟩
    exact ((Expr.isLeaf_unsupported markKind).twin hab).widen (by omega) (by omega)
  | nil =>
    cases others' with
    | zero => exact .pure ⟨by omega, htwin.widen (by omega) (by omega)⟩
    | succ others =>
      exact tandem_spanFrom (.pure ⟨by omega, (Expr.isLeaf_unsupported _).twin (by omega)⟩)

theorem tandem_item (hi : text.length ≤ i + depth) :
    Tandem text shift i (item R) (item R') (Past i 1 (Twin text shift i)) := by
  refine .orElse (.pos ?_) ?_
  · refine (tandem_literal "..." (by decide)).next fun _ j hj => tandem_gap.next fun _ l hl => ?_
    refine (hR.expression false 0 l (by omega)).bind fun o o' m ho => ?_
    have hm := ho.1
    exact tandem_spanFrom (.pure ⟨by omega, (Expr.isLeaf_unsupported _).twin (by omega)⟩)
  · exact (hR.expression false 0 i hi).bind fun o o' j ho => .pure ⟨ho.1, ho.2.expr⟩

theorem tandem_slot (hi : text.length ≤ i + depth) :
    Tandem text shift i (slot R) (slot R') (TwinList text shift i) := by
  refine tandem_marks.bind fun marks marks' j hmarks => ?_
  obtain ⟨rfl, hrow⟩ := hmarks
  have hj := hrow.le
  refine (tandem_item hR (by omega)).option.bind fun value value' l hvalue => .pure ?_
  refine ((Expr.isLeaf_unsupported markKind).twinList (hrow.widen (by omega))).append ?_
  cases hvalue with
  | none => exact .nil (Nat.le_refl _)
  | some h => exact .single h.2

/-- Items between brackets. -/
theorem tandem_items (opening closing : String)
    (hopening : opening ≠ "") (hclosing : closing ≠ "") (hi : text.length ≤ i + depth + 1) :
    Tandem text shift i (items R opening closing) (items R' opening closing)
      (Past i 1 (TwinList text shift i)) := by
  refine (tandem_literal opening hopening).next fun _ j hj => ?_
  refine (tandem_slot hR (by omega)).bind fun first first' l hfirst => ?_
  have hl := hfirst.le
  have hmore : ∀ m, l ≤ m → Tandem text shift m
      (do
        symbol ","
        slot R)
      (do
        symbol ","
        slot R') (TwinList text shift m) := by
    intro m hm
    refine (tandem_symbol "," (by decide)).next fun _ n hn => ?_
    exact (tandem_slot hR (by omega)).mono fun _ _ _ h => h.widen (by omega) (Nat.le_refl _)
  refine (Tandem.many hmore fun _ _ _ _ h => h.le).bind fun more more' m hrounds => ?_
  have htwins := hfirst.append (.of_rounds hrounds)
  have hm := htwins.le
  refine (tandem_symbol closing hclosing).next fun _ n hn => .pure ?_
  exact ⟨by omega, htwins.widen (by omega) (by omega)⟩

theorem tandem_arguments (hi : text.length ≤ i + depth + 1) :
    Tandem text shift i (arguments R) (arguments R') (Past i 1 (TwinList text shift i)) :=
  tandem_items hR "(" ")" (by decide) (by decide) hi

/-- Arguments that may be missing. -/
theorem tandem_optionalArguments (hi : text.length ≤ i + depth + 1) :
    Tandem text shift i
      (Reader.option do
        Reader.trivia
        arguments R)
      (Reader.option do
        Reader.trivia
        arguments R') (Ends i) := by
  refine Tandem.option_ends (tandem_trivia.next fun _ j hj => ?_)
  exact (tandem_arguments hR (by omega)).ends (by omega)

end Grammar

end ScriptToShell
