import ScriptToShell.Proofs.Transcription

/-!
# The grammar of generated text

The rules by which expressions are written also say which texts there
are at all. `Phrase` has the rules without the expressions, as a grammar,
and `Expr.phrase_value`, `Expr.phrase_argument` and `Expr.phrase_condition`
say that nothing else is ever written.

What is true of all generated text is then proved by induction over the
grammar, rule by rule, and the emission is not looked at again. The rules
name what they take over from the program as it is: the text of a
literal, which holds no active character, a number that may stand bare,
and the names, of which a caller may assume whatever it needs.
-/

namespace ScriptToShell

open Emit
open Text (joinWith)

/-! ## The grammar -/

namespace Shell

/-- **What a phrase is used as.** -/
inductive Use where
  /-- One word, the value of an expression. -/
  | value
  /-- One word, an argument of a command. -/
  | argument
  /-- The arguments of a command, with a blank between them. -/
  | arguments
  /-- Commands that print, each on a line of its own. -/
  | prints
  /-- The command line of a call. -/
  | command
  /-- A test. -/
  | test
deriving DecidableEq, Repr

/-- **The grammar of generated text**, in which names are of a given
kind. -/
inductive Phrase (ok : String → Prop) : Use → String → Prop where
  | reference {name : String} (h : ok name) : Phrase ok .value ("\"$" ++ name ++ "\"")
  | quoted {text : String} (h : ∀ c ∈ text.toList, c ∉ activeCharacters) :
      Phrase ok .value ("\"" ++ text ++ "\"")
  | scriptDir : Phrase ok .value Emit.scriptDir
  | scriptPath : Phrase ok .value Emit.scriptPath
  | arithmetic {l r : String} (op : BinaryOp) (hl : Phrase ok .value l) (hr : Phrase ok .value r) :
      Phrase ok .value ("$(( " ++ l ++ " " ++ op.token ++ " " ++ r ++ " ))")
  | boolean {t : String} (h : Phrase ok .test t) : Phrase ok .value (booleanWord t)
  | substitution {t : String} (h : Phrase ok .command t) : Phrase ok .value ("$(" ++ t ++ ")")
  | number {n : String} (h : Numeral.isBare n = true) : Phrase ok .argument n
  | word {v : String} (h : Phrase ok .value v) : Phrase ok .argument v
  | last {a : String} (h : Phrase ok .argument a) : Phrase ok .arguments a
  | more {a as : String} (ha : Phrase ok .argument a) (has : Phrase ok .arguments as) :
      Phrase ok .arguments (a ++ " " ++ as)
  | name {name : String} (h : ok name) : Phrase ok .command name
  | call {name as : String} (h : ok name) (has : Phrase ok .arguments as) :
      Phrase ok .command (name ++ " " ++ as)
  | echo {redirection : String} (h : redirection ∈ redirections) :
      Phrase ok .command ("echo" ++ redirection)
  | prints {t : String} (h : Phrase ok .prints t) : Phrase ok .command t
  | line {v redirection : String} (hv : Phrase ok .value v) (h : redirection ∈ redirections) :
      Phrase ok .prints ("echo " ++ v ++ redirection)
  | lines {v redirection t : String} (hv : Phrase ok .value v) (h : redirection ∈ redirections)
      (ht : Phrase ok .prints t) : Phrase ok .prints ("echo " ++ v ++ redirection ++ "\n" ++ t)
  | comparison {l o r : String} (ho : o ∈ testOperators) (hl : Phrase ok .value l)
      (hr : Phrase ok .value r) : Phrase ok .test ("[ " ++ l ++ " " ++ o ++ " " ++ r ++ " ]")
  | nonzero {v : String} (h : Phrase ok .value v) : Phrase ok .test ("[ " ++ v ++ " -ne 0 ]")
  | truthy {v : String} (h : Phrase ok .value v) : Phrase ok .test (Emit.truthy v)
  | constant (b : Bool) : Phrase ok .test (if b then "true" else "false")
  | status {t : String} (h : Phrase ok .command t) : Phrase ok .test t
  | logical {l r : String} (op : LogicalOp) (hl : Phrase ok .test l) (hr : Phrase ok .test r) :
      Phrase ok .test (l ++ " " ++ op.token ++ " " ++ r)
  | negated {t : String} (h : Phrase ok .test t) : Phrase ok .test ("! " ++ t)
  | braced {t : String} (h : Phrase ok .test t) : Phrase ok .test (Emit.braced t)

namespace Phrase

variable {ok : String → Prop}

/-- Braces or not, a test is a test. -/
theorem bracedIf (needed : Bool) {t : String} (h : Phrase ok .test t) :
    Phrase ok .test (Emit.bracedIf needed t) := by
  cases needed with
  | false => exact h
  | true => exact h.braced

end Phrase

end Shell

/-! ## What is written is in the grammar -/

open Shell

/-- What the text of a piece is used as. -/
def Piece.use : Piece → Use
  | .value _ => .value
  | .argument _ => .argument
  | .arguments _ => .arguments
  | .prints .. => .prints
  | .command .. => .command
  | .test _ => .test

section Transcribes

variable {ok : String → Prop} {target : Target}

theorem phrase_memberText {object : Expr} {property : String} {span : Span} {text : String}
    (h : memberText object property span = .ok text) : Phrase ok .value text := by
  rcases memberText_cases h with rfl | rfl
  · exact .scriptDir
  · exact .scriptPath

/-- **What is written for a piece is a phrase.** -/
theorem Transcribes.phrase {p : Piece} {text : String} (h : Transcribes ok target p text) :
    Phrase ok p.use text := by
  induction h with
  | reference h => exact .reference h
  | quoted h => exact .quoted h
  | property h => exact phrase_memberText h
  | @arithmetic op _ _ _ _ _ _ ho _ _ ihl ihr =>
    rw [token_of_arithmeticOperator ho]
    exact .arithmetic op ihl ihr
  | boolean _ _ ih => exact .boolean ih
  | substitution _ ih => exact .substitution ih
  | number h => exact .number h
  | word _ _ ih => exact .word ih
  | last _ ih => exact .last ih
  | more _ _ iha ihas => exact .more iha ihas
  | name h => exact .name h
  | call h _ ih => exact .call h ih
  | echo h => exact .echo (mem_redirections h)
  | prints _ _ ih => exact .prints ih
  | line h _ ih => exact .line ih h
  | lines h _ _ ihv iht => exact .lines ihv h iht
  | comparison ho _ _ ihl ihr => exact .comparison (mem_testOperators ho) ihl ihr
  | nonzero _ _ ih => exact .nonzero ih
  | referenceTest h => exact .truthy (.reference h)
  | propertyTest h => exact .truthy (phrase_memberText h)
  | constant => exact .constant _
  | status _ ih => exact .status ih
  | @logical op _ _ _ _ _ _ _ ihl ihr =>
    exact .logical op (Phrase.bracedIf _ ihl) (Phrase.bracedIf _ ihr)
  | negated _ ih => exact .negated (Phrase.bracedIf _ ih)

end Transcribes

namespace Expr

variable {ok : String → Prop} {target : Target} {e : Expr} {role : Role}
  (h : ∀ x ∈ e.positions role, x.Named ok)
include h

theorem phrase_value {v : String} (hv : e.value target = .ok v) : Phrase ok .value v :=
  ((e.transcribes target role h).1 v hv).phrase

theorem phrase_condition {t : String} (ht : e.condition target = .ok t) : Phrase ok .test t :=
  ((e.transcribes target role h).2 t ht).phrase

theorem phrase_argument {a : String} (ha : e.argument target = .ok a) : Phrase ok .argument a :=
  (transcribes_argument ha (e.transcribes target role h).1).phrase

end Expr

end ScriptToShell
