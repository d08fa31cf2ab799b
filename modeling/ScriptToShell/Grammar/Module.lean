import ScriptToShell.Grammar.Declaration

/-!
# Imports and exports

An import is kept with the module it names, whatever names it takes in.
Exports have no counterpart in a script.
-/

namespace ScriptToShell.Grammar

open Scan

/-- The name of something a module exports, or a string in its place. -/
def exportName : Reader Unit :=
  (do let _ ← Reader.name) <|> (do let _ ← Reader.string)

/-- A name in braces that is given out, with an optional new name. -/
def exportSpecifier : Reader Unit := do
  exportName
  let _ ← Reader.behind (nextKeyword "as") do
    Reader.gap
    exportName

/-- A name in braces that is taken in, with an optional new name. A string
needs one. -/
def importSpecifier : Reader Unit :=
  (do
    exportName
    nextKeyword "as"
    Reader.gap
    let _ ← Reader.name) <|>
  (do let _ ← Reader.name)

/-- Names in braces. -/
def nameList (specifier : Reader Unit) : Reader Unit := do
  nextSymbol "\x7b"
  let _ ← Reader.option do
    Reader.gap
    specifier
    let _ ← Reader.many do
      nextSymbol ","
      Reader.gap
      specifier
  let _ ← Reader.option (nextSymbol ",")
  nextSymbol "\x7d"

/-- A star with a new name. -/
def namespaceName (name : Reader Unit) : Reader Unit := do
  nextSymbol "*"
  nextKeyword "as"
  Reader.gap
  name

/-- The names an import takes in, other than the default. -/
def importedNames : Reader Unit :=
  namespaceName (do let _ ← Reader.name) <|> nameList importSpecifier

/-- What an import binds. -/
def importClause : Reader Unit :=
  importedNames <|> do
    let _ ← Reader.name
    let _ ← Reader.behind (nextSymbol ",") importedNames

/-- The module a clause is from. -/
def fromClause : Reader String := do
  nextKeyword "from"
  Reader.gap
  Reader.string

/-- **An import.** Only the module it names is kept. Behind the module a
semicolon may be supplied, so no mark may stand there. -/
def importStatement (R : Readers) : Reader Stmt := do
  let start ← Reader.pos
  Reader.keyword "import"
  Reader.gap
  let source ← Reader.string <|> (do
    importClause
    fromClause)
  if !(← Reader.atSupplied true) then
    Reader.noMark
    let _ ← Reader.behind (nextKeyword "with") do
      Reader.gap
      object R
  Reader.semicolon true
  statementFrom start (.importModule source)

/-- A declaration behind `export`. -/
def exportedDeclaration (R : Readers) : Reader Unit := do
  decorators R
  let start ← Reader.pos
  (do let _ ← declaration R .var "var") <|>
    (do let _ ← declaration R .const "const") <|>
    (do let _ ← letDeclaration R) <|>
    (do
      Reader.require (← seesNamedFunction)
      let _ ← namedFunction R start) <|>
    (do let _ ← asyncFunction R) <|>
    (do
      Reader.require (← seesNamedClass)
      let _ ← namedClass R start)

/-- What follows `export`. -/
def exportRest (R : Readers) : Reader NodeKind :=
  (do
    Reader.keyword "default"
    Reader.gap
    exportedDeclaration R <|> (do
      let _ ← R.assignment true
      Reader.semicolon false)
    return .exportDefaultDeclaration) <|>
  (do
    exportedDeclaration R
    return .exportNamedDeclaration) <|>
  (do
    namespaceName exportName
    let _ ← fromClause
    Reader.semicolon true
    return .exportNamedDeclaration) <|>
  (do
    Reader.literal "*"
    let _ ← fromClause
    Reader.semicolon true
    return .exportAllDeclaration) <|>
  (do
    nameList exportSpecifier
    if !(← Reader.atSupplied true) then
      Reader.noMark
      let _ ← Reader.option fromClause
    Reader.semicolon true
    return .exportNamedDeclaration)

/-- An export. -/
def exportStatement (R : Readers) : Reader Stmt := do
  let start ← Reader.pos
  decorators R
  Reader.keyword "export"
  Reader.require (!(← Reader.atSupplied false))
  Reader.trivia
  let kind ← exportRest R
  unsupportedStatement kind start

end ScriptToShell.Grammar
