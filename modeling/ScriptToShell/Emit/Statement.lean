import ScriptToShell.Emit.Expression
import ScriptToShell.Emit.Nesting
import ScriptToShell.Shell.Layout

/-!
# Statements as shell lines

A statement becomes the lines of the commands that do its work. A body is
written as if it stood at the margin and then moved one level to the
right, so no statement needs to know how deep it stands.

A function of a shell has no result but what it prints, so `return v`
prints the value of `v`; the last statement of a function needs no
`return` behind that. A `switch` becomes a `case`: cases without
statements share the arm of the next one, every other case has to end
before the next begins, and the arm of the default comes last because its
pattern matches everything.
-/

namespace ScriptToShell

open Shell (indentLines)
open Text (joinWith)

namespace Emit

/-- The lines of a text; a text without a line feed is one line. -/
def splitText (text : String) : List String :=
  if '\n' ∈ text.toList then (Text.lines text.toList).map String.ofList else [text]

/-- The text of a module without its interpreter line and the empty lines
behind it. -/
def withoutShebang (text : List Char) : List Char :=
  let body := match text with
    | '#' :: '!' :: rest => (rest.dropWhile (· ≠ '\n')).drop 1
    | _ => text
  body.dropWhile (· = '\n')

/-- The lines a module contributes where it is imported. -/
def spliced (text : String) : List String :=
  splitText (String.ofList (Text.trimEnd (withoutShebang text.toList)))

/-- Whether a line is blank. -/
def isBlankLine (line : String) : Bool := Text.allBlank line.toList

/-- Lines without blank ones at either end. -/
def trimBlank (lines : List String) : List String :=
  ((lines.reverse.dropWhile isBlankLine).reverse).dropWhile isBlankLine

/-- **The body of a compound command**: its lines without blank ones at
either end, one level deeper. A shell turns down an empty body, so the
command that does nothing stands in. -/
def body (indent : Indent) (lines : List String) : List String :=
  match trimBlank lines with
  | [] => indentLines indent [":"]
  | trimmed => indentLines indent trimmed

/-- The lines that bind the parameters of a function, numbered from
`index`. -/
def bindings (function : String) (index : Nat) : List Pattern → Except Fault (List String)
  | [] => .ok []
  | .identifier name _ :: params => do
    let lines ← bindings function (index + 1) params
    return ("local " ++ name ++ "=$" ++ toString index) :: lines
  | .unsupported kind span :: _ =>
    .error (.notSupportedFor kind ("parameter of `" ++ function ++ "`") span)

/-- The line of one binding of a declaration. -/
def declaratorLine (target : Target) (d : Declarator) : Except Fault String :=
  match d.target with
  | .identifier name _ =>
    match d.init with
    | some init => (init.value target).map fun v => name ++ "=" ++ v
    | none => .ok (name ++ "=\"\"")
  | .unsupported kind span => .error (.notSupportedFor kind "destructuring declaration" span)

/-- The line that prints the value of an expression. -/
def echoLine (target : Target) (value : Expr) : Except Fault String :=
  (value.value target).map ("echo " ++ ·)

/-- Whether statements end a case, so that the next one is not entered. -/
def endsCase (consequent : List Stmt) : Bool :=
  match consequent.getLast? with
  | some (.exit _) | some (.ret _ _) => true
  | _ => false

/-- An arm of a `case` command. -/
def arm (indent : Indent) (labels : List String) (lines : List String) : List String :=
  indentLines indent ((joinWith "|" labels ++ ")") :: indentLines indent lines ++ [";;"])

/-- The label of a case. -/
def caseLabel (target : Target) : Option Expr → Except Fault String
  | some test => test.value target
  | none => .ok "*"

/-- The lines of an `if` with the blank lines that set off an outermost
one. -/
def framed (outermost : Bool) (lines : List String) : List String :=
  if outermost then "" :: lines ++ [""] else lines

end Emit

open Emit

mutual

/-- **The lines of a statement.** -/
def Stmt.emit (w : Setting) : Stmt → Emission (List String)
  | .block body _ => Stmt.emitAll w body
  | .empty _ => return []
  | .expression value span =>
    match value with
    | .call .. | .unsupported .. => return splitText (← (value.text w.options.target : Except _ _))
    | _ =>
      throw (.notSupportedFor .expressionStatement
        ("a bare `" ++ value.kind.name ++ "` is not a command") span)
  | .branch test consequent alternate _ =>
    Emission.insideIf do
      let outermost := (← get).ifs = 1
      let t ← (test.condition w.options.target : Except _ _)
      let lines ← consequent.emit w
      let rest ← Stmt.emitAlternate w alternate
      return framed outermost
        (("if " ++ t ++ "; then") :: body w.options.indent lines ++ rest ++ ["fi"])
  | .function name params stmts _ =>
    Emission.insideFunction do
      let locals ← (bindings name 1 params : Except _ _)
      let lines ← Stmt.emitFunction w stmts
      return (name ++ "() \x7b") :: body w.options.indent (locals ++ lines) ++ ["\x7d", ""]
  | .ret argument span => do
    if (← get).functions = 0 then
      throw (.notSupportedFor .returnStatement "`return` outside a function" span)
    match argument with
    | some value => return [← (echoLine w.options.target value : Except _ _), "return"]
    | none => return ["return"]
  | .declaration _ declarators _ =>
    (declarators.mapM (declaratorLine w.options.target) : Except _ _)
  | .switch discriminant cases _ =>
    Emission.insideSwitch do
      let d ← (discriminant.value w.options.target : Except _ _)
      let (arms, default) ← SwitchCase.emitAll w [] false cases
      return ("case " ++ d ++ " in") :: arms ++ default.getD [] ++ ["esac"]
  | .importModule source _ => return spliced (← (w.modules source : Except _ _))
  | .exit span => do
    if 0 < (← get).switches then
      throw (.notSupportedFor .breakStatement "`break` may only end a switch case" span)
    else throw (.notSupportedFor .breakStatement "`break` outside a switch" span)
  | .unsupported kind span => throw (.notSupported kind span)

/-- **The lines of a list of statements**, one behind the other. -/
def Stmt.emitAll (w : Setting) : List Stmt → Emission (List String)
  | [] => return []
  | s :: ss => do
    let lines ← s.emit w
    let rest ← Stmt.emitAll w ss
    return lines ++ rest

/-- The lines behind the first body of an `if`: an `elif` for each `if`
that is itself the alternate, and an `else` for any other alternate. -/
def Stmt.emitAlternate (w : Setting) : Option Stmt → Emission (List String)
  | none => return []
  | some (.branch test consequent alternate _) => do
    let t ← (test.condition w.options.target : Except _ _)
    let lines ← consequent.emit w
    let rest ← Stmt.emitAlternate w alternate
    return ("elif " ++ t ++ "; then") :: body w.options.indent lines ++ rest
  | some s => do
    let lines ← s.emit w
    return "else" :: body w.options.indent lines

/-- The lines of the statements of a function. A value returned by the
last one is printed without a `return` behind it. -/
def Stmt.emitFunction (w : Setting) : List Stmt → Emission (List String)
  | [] => return []
  | [.ret (some value) _] => return [← (echoLine w.options.target value : Except _ _)]
  | s :: ss => do
    let lines ← s.emit w
    let rest ← Stmt.emitFunction w ss
    return lines ++ rest

/-- The lines of the statements of a case, without a `break` at their
end. -/
def Stmt.emitCase (w : Setting) : List Stmt → Emission (List String)
  | [] => return []
  | [.exit _] => return []
  | s :: ss => do
    let lines ← s.emit w
    let rest ← Stmt.emitCase w ss
    return lines ++ rest

/-- **The arms of a `switch`**: those without the default in the order of
the text, and the last one with it. The labels of the cases before that
share the arm of the next one are given, and whether the default is
among them. -/
def SwitchCase.emitAll (w : Setting) (labels : List String) (hasDefault : Bool) :
    List SwitchCase → Emission (List String × Option (List String))
  | [] => return ([], none)
  | .mk test consequent span :: rest => do
    let label ← (caseLabel w.options.target test : Except _ _)
    let labels := labels ++ [label]
    let hasDefault := hasDefault || test.isNone
    if consequent.isEmpty && !rest.isEmpty then
      SwitchCase.emitAll w labels hasDefault rest
    else
      if !consequent.isEmpty && !endsCase consequent && !rest.isEmpty then
        throw (.notSupportedFor .switchCase
          "fall-through into the next case; end the case with `break`" span)
      let lines ← Stmt.emitCase w consequent
      let own := arm w.options.indent labels lines
      let (arms, default) ← SwitchCase.emitAll w [] false rest
      if hasDefault then return (arms, default.or (some own))
      else return (own ++ arms, default)

end

end ScriptToShell
