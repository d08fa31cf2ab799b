import ScriptToShell.Proofs.Phrase
import ScriptToShell.Tree.Strip

/-!
# The grouping of an operation

An operation is written inside out: each operand becomes a word, and the
operation puts brackets around the two words. Parentheses of the source leave
no node, so the brackets are all that is left of the grouping, and two
operations that are grouped differently must not be written alike.

They are not, since the text can be read back. `readOperand` reads one operand
from the front of a text and leaves the rest. It does so without looking ahead:
a quote begins a variable or a number, which goes on to the next quote whatever
brackets, operators and blanks stand in between, and a bracket begins an
operation, which ends where its second operand has been read. So the place where
the first operand ends is found by reading it (`readOperand_value`), and
`arithmetic_keeps_grouping` follows.
-/

namespace ScriptToShell

open Emit

/-! ## Reading operations -/

namespace Shell

/-- The text up to a quote, and what stands behind that. -/
def readQuoted (cs : List Char) : Option (List Char × List Char) :=
  match cs.dropWhile (· ≠ '"') with
  | _ :: rest => some (cs.takeWhile (· ≠ '"'), rest)
  | [] => none

/-- What stands between two quotes: a variable begins with a dollar, and
anything else is a number. -/
def quotedOperand : List Char → Expr
  | '$' :: name => .identifier (String.ofList name) .nowhere
  | text => .literal (.number (String.ofList text)) .nowhere

/-- An operator with a blank on either side. -/
def readOperator : List Char → Option (BinaryOp × List Char)
  | ' ' :: cs =>
    match cs.dropWhile (· ≠ ' ') with
    | _ :: rest => (BinaryOp.ofToken? (String.ofList (cs.takeWhile (· ≠ ' ')))).map (·, rest)
    | [] => none
  | _ => none

/-- The end of an operation. -/
def readClose : List Char → Option (List Char)
  | ' ' :: ')' :: ')' :: rest => some rest
  | _ => none

/-- **The operand at the front of a text**, and the rest of the text. Operations
are read to a given depth. -/
def readOperand : Nat → List Char → Option (Expr × List Char)
  | _, '"' :: cs => (readQuoted cs).map fun (text, rest) => (quotedOperand text, rest)
  | depth + 1, '$' :: '(' :: '(' :: ' ' :: cs => do
    let (left, cs) ← readOperand depth cs
    let (op, cs) ← readOperator cs
    let (right, cs) ← readOperand depth cs
    let rest ← readClose cs
    return (.binary op left right .nowhere, rest)
  | _, _ => none

/-- **The operation that a text is written for**, if it is one. An operation is
never deeper than its text is long. -/
def decodeOperation (text : String) : Option Expr :=
  match readOperand text.length text.toList with
  | some (e, []) => some e
  | _ => none

section Read

variable {cs : List Char} (rest : List Char)

theorem readQuoted_append (h : '"' ∉ cs) : readQuoted (cs ++ '"' :: rest) = some (cs, rest) := by
  have hall : ∀ c ∈ cs, decide (c ≠ '"') = true := fun c hc =>
    decide_eq_true fun heq => h (heq ▸ hc)
  unfold readQuoted
  rw [List.dropWhile_append_of_pos hall, List.takeWhile_append_of_pos hall,
    List.dropWhile_cons_of_neg (by simp), List.takeWhile_cons_of_neg (by simp), List.append_nil]

/-- An operator is read from its token. -/
theorem readOperator_token (op : BinaryOp) :
    readOperator (' ' :: (op.token.toList ++ ' ' :: rest)) = some (op, rest) := by
  have htoken : op.token.toList.all (· ≠ ' ') = true := by cases op <;> decide
  have hall := List.all_eq_true.1 htoken
  rw [readOperator, List.dropWhile_append_of_pos hall, List.takeWhile_append_of_pos hall,
    List.dropWhile_cons_of_neg (by simp), List.takeWhile_cons_of_neg (by simp), List.append_nil,
    String.ofList_toList, BinaryOp.ofToken?_token]
  rfl

theorem readOperand_quoted (depth : Nat) (h : '"' ∉ cs) :
    readOperand depth ('"' :: (cs ++ '"' :: rest)) = some (quotedOperand cs, rest) := by
  rw [readOperand, readQuoted_append rest h]
  rfl

/-- **An operation is read from its parts.** -/
theorem readOperand_operation {depth : Nat} {left right : Expr} {l r : List Char} (op : BinaryOp)
    (hleft : ∀ rest, readOperand depth (l ++ rest) = some (left, rest))
    (hright : ∀ rest, readOperand depth (r ++ rest) = some (right, rest)) :
    readOperand (depth + 1) ('$' :: '(' :: '(' :: ' ' ::
        (l ++ ' ' :: (op.token.toList ++ ' ' :: (r ++ ' ' :: ')' :: ')' :: rest))))
      = some (.binary op left right .nowhere, rest) := by
  rw [readOperand, hleft]
  dsimp only [Option.bind_eq_bind, Option.bind_some]
  rw [readOperator_token]
  dsimp only [Option.bind_some]
  rw [hright]
  rfl

end Read

end Shell

open Shell

/-! ## Arithmetic -/

/-- **An arithmetic expression** for a shell: operations of the shell, over
variables and over numbers of any text that can be quoted. -/
inductive Expr.IsArithmetic (target : Target) : Expr → Prop
  | reference {name span} (h : isName name = true) : IsArithmetic target (.identifier name span)
  | number {text span} (h : ∀ c ∈ text.toList, c ∉ activeCharacters) :
      IsArithmetic target (.literal (.number text) span)
  | operation {op left right span}
      (hop : op ∈ arithmeticOperators ∨ op = .exp ∧ target = .bash)
      (hleft : IsArithmetic target left) (hright : IsArithmetic target right) :
      IsArithmetic target (.binary op left right span)

namespace Expr

variable {target : Target}

/-- The value of an operation, from those of its operands. -/
theorem value_operation {op : BinaryOp} {left right : Expr} {span : Span}
    (hop : op ∈ arithmeticOperators ∨ op = .exp ∧ target = .bash) {l r : String}
    (hl : left.value target = .ok l) (hr : right.value target = .ok r) :
    (binary op left right span).value target
      = .ok ("$(( " ++ l ++ " " ++ op.token ++ " " ++ r ++ " ))") := by
  obtain ⟨o, ho⟩ := (accepted_arithmeticOperator op target span).2 hop
  have hcompare : op.isComparison = false := by
    rcases hop with hmem | ⟨rfl, -⟩
    · have hall : arithmeticOperators.all (!·.isComparison) = true := by decide
      simpa using List.all_eq_true.1 hall op hmem
    · rfl
  obtain rfl := token_of_arithmeticOperator ho
  unfold value at hl hr ⊢
  rw [text, if_neg (by simp [hcompare]), arithmetic, ho, hl, hr]
  rfl

/-- **A value is read back from its text**, whatever stands behind it. -/
theorem IsArithmetic.readOperand_value {e : Expr} (h : e.IsArithmetic target) :
    ∃ text, e.value target = .ok text ∧ ∀ depth, text.length ≤ depth → ∀ rest,
      readOperand depth (text.toList ++ rest) = some (e.stripSpans, rest) := by
  induction h with
  | @reference name span hname =>
    have hquote : '"' ∉ '$' :: name.toList := by
      rw [List.mem_cons, not_or]
      exact ⟨by decide, fun hmem =>
        absurd ((isNameChar_of_isName hname).2 '"' hmem) (by decide)⟩
    refine ⟨"\"$" ++ name ++ "\"", by rw [value, text]; rfl, fun depth _ rest => ?_⟩
    have htext : ("\"$" ++ name ++ "\"").toList ++ rest
        = '"' :: ('$' :: name.toList ++ '"' :: rest) := by simp
    rw [htext, readOperand_quoted rest depth hquote, quotedOperand, String.ofList_toList,
      stripSpans]
  | @number n span hactive =>
    have hquote : '"' ∉ n.toList := fun hmem => hactive _ hmem (by decide)
    have hoperand : quotedOperand n.toList = .literal (.number n) .nowhere := by
      unfold quotedOperand
      split
      · rename_i name hdollar
        exact absurd (by decide) (hactive '$' (hdollar ▸ List.mem_cons_self))
      · rw [String.ofList_toList]
    have hliteral : literalText (.number n) span = .ok n := literalText_eq span hactive
    refine ⟨"\"" ++ n ++ "\"", ?_, fun depth _ rest => ?_⟩
    · rw [value, text, hliteral]
      rfl
    · have htext : ("\"" ++ n ++ "\"").toList ++ rest = '"' :: (n.toList ++ '"' :: rest) := by simp
      rw [htext, readOperand_quoted rest depth hquote, hoperand, stripSpans]
  | @operation op left right span hop _ _ ihl ihr =>
    obtain ⟨l, hl, hleft⟩ := ihl
    obtain ⟨r, hr, hright⟩ := ihr
    refine ⟨_, value_operation hop hl hr, fun depth hdepth rest => ?_⟩
    simp only [String.length_append] at hdepth
    cases depth with
    | zero => exact absurd hdepth (by simp)
    | succ depth =>
      have hopen : "$(( ".length = 4 := rfl
      have htext : ("$(( " ++ l ++ " " ++ op.token ++ " " ++ r ++ " ))").toList ++ rest
          = '$' :: '(' :: '(' :: ' ' :: (l.toList
            ++ ' ' :: (op.token.toList ++ ' ' :: (r.toList ++ ' ' :: ')' :: ')' :: rest))) := by
        simp
      rw [htext, readOperand_operation rest op (hleft depth (by omega)) (hright depth (by omega)),
        stripSpans]

theorem IsArithmetic.decodeOperation_value {e : Expr} (h : e.IsArithmetic target) :
    ∃ text, e.value target = .ok text ∧ decodeOperation text = some e.stripSpans := by
  obtain ⟨text, hvalue, hread⟩ := h.readOperand_value
  have hall := hread text.length (Nat.le_refl _) []
  rw [List.append_nil] at hall
  refine ⟨text, hvalue, ?_⟩
  unfold decodeOperation
  rw [hall]

/-- **Arithmetic keeps its grouping.** An arithmetic expression has a value, and
it can be decoded to the expression, up to spans. So two expressions with the
same value are the same up to spans, be they written for different shells. -/
theorem arithmetic_keeps_grouping (target target' : Target) (e e' : Expr)
    (h : e.IsArithmetic target) (h' : e'.IsArithmetic target') :
    (∃ text, e.value target = .ok text ∧ decodeOperation text = some e.stripSpans)
      ∧ (e.value target = e'.value target' → e.stripSpans = e'.stripSpans) := by
  obtain ⟨text, hvalue, hdecode⟩ := h.decodeOperation_value
  obtain ⟨text', hvalue', hdecode'⟩ := h'.decodeOperation_value
  refine ⟨⟨text, hvalue, hdecode⟩, fun heq => ?_⟩
  obtain rfl := Except.ok.inj (hvalue.symm.trans (heq.trans hvalue'))
  exact Option.some.inj (hdecode.symm.trans hdecode')

/-- The operation `a - b - n`, grouped to the left or to the right, where the text
of `n` looks like the end of an operation and the start of another one. -/
def difference (toTheLeft : Bool) : Expr :=
  let a : Expr := .identifier "a" .nowhere
  let b : Expr := .identifier "b" .nowhere
  let n : Expr := .literal (.number "1 )) - (2") .nowhere
  if toTheLeft then .binary .sub (.binary .sub a b .nowhere) n .nowhere
  else .binary .sub a (.binary .sub b n .nowhere) .nowhere

theorem difference_isArithmetic (toTheLeft : Bool) :
    (difference toTheLeft).IsArithmetic .posix := by
  have hsub : BinaryOp.sub ∈ arithmeticOperators := by decide
  have hplain : "1 )) - (2".toList.all (!activeCharacters.contains ·) = true := by decide
  have hn : IsArithmetic .posix (.literal (.number "1 )) - (2") .nowhere) :=
    .number fun c hc => by simpa using List.all_eq_true.1 hplain c hc
  have ha : IsArithmetic .posix (.identifier "a" .nowhere) := .reference rfl
  have hb : IsArithmetic .posix (.identifier "b" .nowhere) := .reference rfl
  cases toTheLeft with
  | true => exact .operation (.inl hsub) (.operation (.inl hsub) ha hb) hn
  | false => exact .operation (.inl hsub) ha (.operation (.inl hsub) hb hn)

/-- The two groupings are written differently, and each can be read back. -/
theorem difference_keeps_grouping :
    (difference true).IsArithmetic .posix ∧ (difference false).IsArithmetic .posix
      ∧ (∃ text, (difference true).value .posix = .ok text
        ∧ decodeOperation text = some (difference true).stripSpans)
      ∧ (difference true).value .posix ≠ (difference false).value .posix := by
  have hleft := difference_isArithmetic true
  have hright := difference_isArithmetic false
  obtain ⟨hread, hsame⟩ := arithmetic_keeps_grouping .posix .posix _ _ hleft hright
  refine ⟨hleft, hright, hread, fun heq => ?_⟩
  have hgrouping := hsame heq
  cases hgrouping

end Expr

end ScriptToShell
