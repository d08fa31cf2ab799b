import Mathlib.Logic.Relation
import Mathlib.Order.Nat
import ScriptToShell.Scan.Cursor
import ScriptToShell.Tree.Basic

/-!
# Places in a text and nodes that stand there

Every node of a program has a span, and a span is a promise: that the node
was read from these bytes. This module says what the promise comes to for a
whole tree (`Node.Placed`). The span of a node fits the text, which is to say
that it starts and ends between two characters. The nodes below it stand
inside it, one behind the other.

A place in a text is told by the number of characters before it, so that
places can be compared without a thought to the bytes that characters take
(`Scan.Cursor.at`). Nodes that are read one after the other make up a row
(`Node.Row`): each stands between two places, and it starts where the one
before it has ended or later. Whatever is made of a row and has the span of
the whole is placed again (`Node.Between.of_row`).
-/

namespace ScriptToShell

open Scan

/-! ## Spans -/

/-- **An offset between two characters** of a text. -/
def IsBoundary (text : List Char) (offset : Nat) : Prop :=
  ∃ before after, text = before ++ after ∧ byteLength before = offset

namespace Span

/-- **A span that fits a text.** -/
structure Fits (text : List Char) (s : Span) : Prop where
  /-- It does not end before it starts. -/
  ordered : s.start ≤ s.stop
  /-- It ends within the text. -/
  bounded : s.stop ≤ byteLength text
  /-- It starts between two characters. -/
  start : IsBoundary text s.start
  /-- It ends between two characters. -/
  stop : IsBoundary text s.stop

/-- One span lies inside another. -/
def Inside (inner outer : Span) : Prop := outer.start ≤ inner.start ∧ inner.stop ≤ outer.stop

/-- One span ends before another one starts. -/
def Precedes (s t : Span) : Prop := s.stop ≤ t.start

end Span

/-! ## Nodes -/

/-- **A node of a program**, of any sort. -/
inductive Node where
  | program (p : Program)
  | statement (s : Stmt)
  | switchCase (c : SwitchCase)
  | declarator (d : Declarator)
  | pattern (p : Pattern)
  | expression (e : Expr)

namespace Node

/-- Where a node stands. -/
def span : Node → Span
  | .program p => p.span
  | .statement s => s.span
  | .switchCase c => c.span
  | .declarator d => d.span
  | .pattern p => p.span
  | .expression e => e.span

/-- The nodes right below a node, in the order of the text. -/
def children : Node → List Node
  | .program p => p.body.map .statement
  | .statement (.block body _) => body.map .statement
  | .statement (.expression value _) => [.expression value]
  | .statement (.branch test consequent alternate _) =>
    .expression test :: .statement consequent :: alternate.toList.map .statement
  | .statement (.function _ params body _) => params.map .pattern ++ body.map .statement
  | .statement (.ret argument _) => argument.toList.map .expression
  | .statement (.declaration _ declarators _) => declarators.map .declarator
  | .statement (.switch discriminant cases _) =>
    .expression discriminant :: cases.map .switchCase
  | .switchCase (.mk test consequent _) =>
    test.toList.map .expression ++ consequent.map .statement
  | .declarator d => .pattern d.target :: d.init.toList.map .expression
  | .expression (.binary _ left right _) => [.expression left, .expression right]
  | .expression (.logical _ left right _) => [.expression left, .expression right]
  | .expression (.not argument _) => [.expression argument]
  | .expression (.call callee arguments _) => .expression callee :: arguments.map .expression
  | .expression (.member object _ _) => [.expression object]
  | _ => []

/-- **A node stands in another one**, at any depth, or is that node. -/
def StandsIn (n top : Node) : Prop :=
  Relation.ReflTransGen (fun parent child => child ∈ parent.children) top n

/-- **A node whose span keeps its promise**, with all that stand in it. -/
inductive Placed (text : List Char) : Node → Prop
  | mk {n : Node} (fits : n.span.Fits text) (inside : ∀ c ∈ n.children, c.span.Inside n.span)
      (ordered : (n.children.map span).Pairwise Span.Precedes)
      (below : ∀ c ∈ n.children, Placed text c) : Placed text n

/-- What stands in a placed node is placed. -/
theorem StandsIn.placed {text : List Char} {n top : Node} (h : n.StandsIn top)
    (htop : top.Placed text) : n.Placed text := by
  induction h with
  | refl => exact htop
  | tail _ hchild ih =>
    obtain ⟨-, -, -, hbelow⟩ := ih
    exact hbelow _ hchild

end Node

/-! ## Places -/

/-- The number of bytes before a place in a text, which is given by the number
of characters before it. -/
def offsetAt (text : List Char) (i : Nat) : Nat := byteLength (text.take i)

theorem isBoundary_offsetAt (text : List Char) (i : Nat) : IsBoundary text (offsetAt text i) :=
  ⟨text.take i, text.drop i, (List.take_append_drop i text).symm, rfl⟩

theorem offsetAt_add (text : List Char) (i n : Nat) :
    offsetAt text (i + n) = offsetAt text i + byteLength ((text.drop i).take n) := by
  unfold offsetAt
  rw [List.take_add, byteLength_append]

theorem offsetAt_mono (text : List Char) {i j : Nat} (h : i ≤ j) :
    offsetAt text i ≤ offsetAt text j := by
  obtain ⟨n, rfl⟩ := Nat.exists_eq_add_of_le h
  rw [offsetAt_add]
  exact Nat.le_add_right _ _

theorem offsetAt_length (text : List Char) : offsetAt text text.length = byteLength text := by
  unfold offsetAt
  rw [List.take_length]

theorem offsetAt_le (text : List Char) (i : Nat) : offsetAt text i ≤ byteLength text := by
  obtain h | h := Nat.le_total i text.length
  · rw [← offsetAt_length]
    exact offsetAt_mono text h
  · unfold offsetAt
    rw [List.take_of_length_le h]

/-- The span between two places of a text. -/
def spanAt (text : List Char) (i j : Nat) : Span := ⟨offsetAt text i, offsetAt text j⟩

theorem fits_spanAt (text : List Char) {i j : Nat} (h : i ≤ j) : (spanAt text i j).Fits text :=
  ⟨offsetAt_mono text h, offsetAt_le text j, isBoundary_offsetAt text i, isBoundary_offsetAt text j⟩

/-- **A place in a text**, behind a number of characters. -/
def Scan.Cursor.at (text : List Char) (i : Nat) : Cursor := ⟨offsetAt text i, text.drop i⟩

theorem Scan.Cursor.skip_at (text : List Char) (i n : Nat) :
    (Cursor.at text i).skip n = Cursor.at text (i + n) := by
  unfold Cursor.skip Cursor.at
  rw [offsetAt_add, List.drop_drop]

/-- Behind a run of characters. -/
theorem Scan.Cursor.skip_append (pos : Nat) (cs rest : List Char) :
    Cursor.skip cs.length ⟨pos, cs ++ rest⟩ = ⟨pos + byteLength cs, rest⟩ := by
  unfold Cursor.skip
  rw [List.take_left, List.drop_left]

/-! ## Rows -/

namespace Node

variable {text : List Char} {i i' j j' k : Nat} {n m : Node} {ns ms : List Node}

/-- **A node that stands between two places.** -/
structure Between (text : List Char) (i j : Nat) (n : Node) : Prop where
  /-- The places are in order. -/
  le : i ≤ j
  /-- The node is placed. -/
  placed : n.Placed text
  /-- It starts behind the first place. -/
  start : offsetAt text i ≤ n.span.start
  /-- It ends before the second place. -/
  stop : n.span.stop ≤ offsetAt text j

theorem Between.widen (h : n.Between text i j) (hi : i' ≤ i) (hj : j ≤ j') :
    n.Between text i' j' :=
  ⟨hi.trans (h.le.trans hj), h.placed, (offsetAt_mono text hi).trans h.start,
    h.stop.trans (offsetAt_mono text hj)⟩

/-- **Nodes in a row**: each stands between two places, one behind the
other. -/
inductive Row (text : List Char) : Nat → Nat → List Node → Prop
  | nil {i j : Nat} (h : i ≤ j) : Row text i j []
  | cons {i j k : Nat} {n : Node} {ns : List Node} (head : n.Between text i j)
      (tail : Row text j k ns) : Row text i k (n :: ns)

theorem Row.le (h : Row text i j ns) : i ≤ j := by
  induction h with
  | nil h => exact h
  | cons head _ ih => exact head.le.trans ih

theorem Row.widen (h : Row text i j ns) (hi : i' ≤ i) (hj : j ≤ j') : Row text i' j' ns := by
  induction h generalizing i' with
  | nil h => exact .nil (hi.trans (h.trans hj))
  | cons head _ ih => exact .cons (head.widen hi le_rfl) (ih le_rfl hj)

theorem Row.append (h : Row text i j ns) (h' : Row text j k ms) : Row text i k (ns ++ ms) := by
  induction h with
  | nil h => exact h'.widen h le_rfl
  | cons head _ ih => exact .cons head (ih h')

theorem Row.single (h : n.Between text i j) : Row text i j [n] := .cons h (.nil le_rfl)

theorem Row.pair (h : n.Between text i j) (hj : j ≤ j') (h' : m.Between text j' k) :
    Row text i k [n, m] :=
  .cons h ((Row.single h').widen hj le_rfl)

theorem Row.between (h : Row text i j ns) : ∀ n ∈ ns, n.Between text i j := by
  induction h with
  | nil => exact List.forall_mem_nil _
  | cons head tail ih =>
    exact List.forall_mem_cons.2 ⟨head.widen le_rfl tail.le, fun n hn =>
      (ih n hn).widen head.le le_rfl⟩

theorem Row.ordered (h : Row text i j ns) : (ns.map span).Pairwise Span.Precedes := by
  induction h with
  | nil => exact .nil
  | cons head tail ih =>
    refine .cons (fun s hs => ?_) ih
    obtain ⟨n, hn, rfl⟩ := List.mem_map.1 hs
    exact head.stop.trans (tail.between n hn).start

/-- **What is made of a row** stands where the row does. -/
theorem Between.of_row (hspan : n.span = spanAt text i j) (h : Row text i j n.children) :
    n.Between text i j := by
  refine ⟨h.le, ⟨?_, fun c hc => ?_, h.ordered, fun c hc => (h.between c hc).placed⟩, ?_, ?_⟩
  · rw [hspan]
    exact fits_spanAt text h.le
  · rw [hspan]
    exact ⟨(h.between c hc).start, (h.between c hc).stop⟩
  · rw [hspan]
    exact le_rfl
  · rw [hspan]
    exact le_rfl

/-- What is left of a row is a row. -/
theorem Row.of_suffix (ns : List Node) (h : Row text i j (ns ++ ms)) : Row text i j ms := by
  induction ns generalizing i with
  | nil => exact h
  | cons n ns ih =>
    cases h with
    | cons head tail => exact (ih tail).widen head.le le_rfl

/-- A node with nothing below it stands where it was read. -/
theorem Between.leaf (hspan : n.span = spanAt text i j) (h : i ≤ j) (hleaf : n.children = []) :
    n.Between text i j :=
  .of_row hspan (hleaf ▸ .nil h)

end Node

/-- **Spans in a row**, one behind the other between two places. -/
inductive Span.Row (text : List Char) : Nat → Nat → List Span → Prop
  | nil {i j : Nat} (h : i ≤ j) : Row text i j []
  | cons {i a b j : Nat} {spans : List Span} (hi : i ≤ a) (hab : a ≤ b)
      (tail : Row text b j spans) : Row text i j (spanAt text a b :: spans)

theorem Span.Row.le {text : List Char} {i j : Nat} {spans : List Span}
    (h : Span.Row text i j spans) : i ≤ j := by
  induction h with
  | nil h => exact h
  | cons hi hab _ ih => exact hi.trans (hab.trans ih)

theorem Span.Row.widen {text : List Char} {i i' j : Nat} {spans : List Span}
    (h : Span.Row text i j spans) (hi : i' ≤ i) : Span.Row text i' j spans := by
  cases h with
  | nil h => exact .nil (hi.trans h)
  | cons ha hab tail => exact .cons (hi.trans ha) hab tail

theorem Span.Row.stretch {text : List Char} {i j j' : Nat} {spans : List Span}
    (h : Span.Row text i j spans) (hj : j ≤ j') : Span.Row text i j' spans := by
  induction h with
  | nil h => exact .nil (h.trans hj)
  | cons ha hab _ ih => exact .cons ha hab (ih hj)

/-- Nodes with nothing below them, at spans in a row, are in a row. -/
theorem Span.Row.nodes {text : List Char} {i j : Nat} {spans : List Span} {make : Span → Node}
    (h : Span.Row text i j spans) (hspan : ∀ s, (make s).span = s)
    (hleaf : ∀ s, (make s).children = []) : Node.Row text i j (spans.map make) := by
  induction h with
  | nil h => exact .nil h
  | cons hi hab _ ih =>
    exact .cons ((Node.Between.leaf (hspan _) hab (hleaf _)).widen hi le_rfl) ih

end ScriptToShell
