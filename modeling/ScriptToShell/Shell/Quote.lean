import ScriptToShell.Tree.Kind

/-!
# Words

A value that stands inside a larger command is written as one shell
word. How depends on the kind of expression the text comes from: the
name of a variable is expanded inside quotes, the text of a literal is
quoted, a command is substituted, and an expansion that is already
complete is left as it is.
-/

namespace ScriptToShell.Shell

/-- **How a text is made a word.** -/
inductive Quoting where
  /-- The value of a variable, inside double quotes. -/
  | variableExpansion
  /-- The text itself, inside double quotes. -/
  | literalQuote
  /-- The output of a command. -/
  | commandSubstitution
  /-- The text is a word already. -/
  | arithmeticBlock
deriving DecidableEq, Repr, Inhabited

namespace Quoting

/-- The rule a kind of expression has of its own. -/
def ofKind? : NodeKind → Option Quoting
  | .identifier => some .variableExpansion
  | .literal => some .literalQuote
  | .callExpression => some .commandSubstitution
  | .binaryExpression => some .arithmeticBlock
  | _ => none

/-- **The rule for a kind of expression.** A kind without a rule of its
own is quoted like a literal. -/
def ofKind (kind : NodeKind) : Quoting := (ofKind? kind).getD .literalQuote

/-- **A text made a word.** -/
def apply (quoting : Quoting) (text : String) : String :=
  match quoting with
  | .variableExpansion => "\"$" ++ text ++ "\""
  | .literalQuote => "\"" ++ text ++ "\""
  | .commandSubstitution => "$(" ++ text ++ ")"
  | .arithmeticBlock => text

end Quoting

/-- The text of an expression of this kind, made a word. -/
def word (kind : NodeKind) (text : String) : String := (Quoting.ofKind kind).apply text

end ScriptToShell.Shell
