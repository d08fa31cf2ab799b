import ScriptToShell.Proofs.Printing
import ScriptToShell.Proofs.ProgramPlaces
import ScriptToShell.Proofs.Spans

/-!
# Reading a printed expression

A plain expression that is printed with all its parentheses is read as what it
was (`Program.parse_print`), and never as something else that starts alike: an
arrow function, a sequence, a call that goes on.

What stands behind a printed part decides whether it is read as a whole. An
operand ends before an operator, a comma, a closing parenthesis or a semicolon
(`EndsOperand`), an expression before any of these but an operator
(`EndsExpression`). Under this condition each rule of the grammar takes the
text that is printed for it and nothing more.

The induction is on the expression, with two statements at a time
(`ReadBack`): as a part it is read as an operand, and as a whole as an
expression. The readers have to go as deep as the parentheses, for which the
length of the text is enough.
-/

namespace ScriptToShell.Grammar

open Scan

/-- The token of a connective. -/
def Connective.token : Connective → String
  | .binary op => op.token
  | .logical op => op.token
  | .coalesce => "??"

/-! ## What follows -/

/-- **A text before which an operand ends**: nothing at its head can be part of
the operand, whatever the operand is. -/
structure EndsOperand (rest : List Char) : Prop where
  /-- A word or number ends here. -/
  boundary : Boundary rest
  /-- No arrow follows. -/
  arrow : ∀ pos, symbol "=>" ⟨pos, rest⟩ = none
  /-- No access to a property follows. -/
  access : ∀ R start o pos, accessSuffix R start o ⟨pos, rest⟩ = none
  /-- No arguments follow. -/
  call : ∀ R semi start o pos, callSuffix R semi start o ⟨pos, rest⟩ = none
  /-- No assignment follows. -/
  equals : ∀ pos, equalsSign ⟨pos, rest⟩ = none
  /-- No assignment that computes follows. -/
  compound : ∀ pos, compoundSign ⟨pos, rest⟩ = none

/-- **A text before which an expression ends**: no operator follows, either. -/
structure EndsExpression (rest : List Char) : Prop extends EndsOperand rest where
  /-- No operator follows. -/
  connective : ∀ bound pos, Grammar.connective bound ⟨pos, rest⟩ = none
  /-- No branches of a conditional follow. -/
  question : ∀ pos, symbol "?" ⟨pos, rest⟩ = none

/-- An expression ends before a semicolon, and before a parenthesis or comma
behind a space. -/
theorem endsExpression_of {rest cs : List Char}
    (h : rest = ';' :: cs ∨ rest = ' ' :: ')' :: cs ∨ rest = ' ' :: ',' :: cs) :
    EndsExpression rest := by
  obtain rfl | rfl | rfl := h
  all_goals
    exact {
      boundary := ⟨_, _, rfl, by decide⟩
      arrow := fun _ => rfl
      access := fun _ _ _ _ => rfl
      call := fun _ semi _ _ _ => by cases semi <;> rfl
      equals := fun _ => rfl
      compound := fun _ => rfl
      connective := fun _ _ => rfl
      question := fun _ => rfl }

/-- An operand ends before an operator. -/
theorem endsOperand_connective (c : Connective) (cs : List Char) :
    EndsOperand (' ' :: (c.token.toList ++ ' ' :: cs)) := by
  rcases c with op | op | _ <;> (try cases op)
  all_goals
    exact {
      boundary := ⟨' ', _, rfl, .inl rfl⟩
      arrow := fun _ => rfl
      access := fun _ _ _ _ => rfl
      call := fun _ semi _ _ _ => by cases semi <;> rfl
      equals := fun _ => rfl
      compound := fun _ => rfl }

/-- Where no symbol stands, the operator is a word. -/
theorem connective?_of_no_symbol {cs : List Char}
    (h : operatorSymbols.find? (·.1.toList.isPrefixOf cs) = none) :
    connective? cs = match headName? cs with
      | some "in" => some (.binary .isIn, 2)
      | some "instanceof" => some (.binary .instanceOf, 10)
      | _ => none := by
  unfold connective?
  split
  case h_1 hfind => rw [h] at hfind; cases hfind
  case h_2 => rfl

/-- An operator is read as the connective it stands for. -/
theorem connective?_token (c : Connective) (cs : List Char) :
    connective? (c.token.toList ++ ' ' :: cs) = some (c, c.token.toList.length) := by
  have hboundary : Boundary (' ' :: cs) := ⟨' ', cs, rfl, .inl rfl⟩
  cases c with
  | coalesce => rfl
  | logical op => cases op <;> rfl
  | binary op =>
    cases op
    case isIn =>
      have hname : headName? ("in".toList ++ ' ' :: cs) = some "in" :=
        headName?_append ⟨by decide, by decide⟩ hboundary
      refine (connective?_of_no_symbol rfl).trans ?_
      rw [Connective.token, BinaryOp.token, hname]
      rfl
    case instanceOf =>
      have hname : headName? ("instanceof".toList ++ ' ' :: cs) = some "instanceof" :=
        headName?_append ⟨by decide, by decide⟩ hboundary
      refine (connective?_of_no_symbol rfl).trans ?_
      rw [Connective.token, BinaryOp.token, hname]
      rfl
    all_goals rfl

/-! ## Operands -/

section Operand

variable {R : Readers} {semi : Bool} {pos pos' : Nat} {cs rest : List Char} {o o' : Operand}

section Suffixes

variable {suffix : Operand → Reader Operand} {c d : Cursor}

theorem suffixesUpTo_of_none (h : suffix o c = none) (limit : Nat) :
    suffixesUpTo suffix limit o c = some (o, c) := by
  cases limit with
  | zero => rfl
  | succ limit => simp [suffixesUpTo, h]

theorem suffixes_of_none (h : suffix o c = none) : suffixes suffix o c = some (o, c) := by
  simp [suffixes, suffixesUpTo_of_none h]

/-- An operand with one suffix. -/
theorem suffixes_of_some (h : suffix o c = some (o', d)) (h' : suffix o' d = none)
    (hc : c.rest ≠ []) : suffixes suffix o c = some (o', d) := by
  obtain ⟨limit, hlimit⟩ := Nat.exists_eq_add_of_lt (List.length_pos_iff.2 hc)
  rw [Nat.zero_add] at hlimit
  simp [suffixes, hlimit, suffixesUpTo, h, suffixesUpTo_of_none h']

end Suffixes

theorem assigned_of_ends (h : EndsOperand rest) (start : Nat) (o : Operand) :
    assigned R semi start o ⟨pos, rest⟩ = some (o, ⟨pos, rest⟩) := by
  unfold assigned
  split
  · rfl
  · simp [h.equals, h.compound]

/-- The words that stand before an operand. -/
def operatorWords : List String := ["typeof", "void", "delete", "await", "yield", "new"]

/-- **A text that starts with a primary expression** other than `new`: with no
operator that stands before its operand. -/
structure StartsPrimary (cs : List Char) : Prop where
  /-- The first character is not an operator. -/
  head : ∀ c ∈ cs.head?, c ≠ '!' ∧ c ≠ '~' ∧ c ≠ '+' ∧ c ≠ '-'
  /-- The first word is not an operator. -/
  word : ∀ w ∈ headName? cs, w ∉ operatorWords

theorem operandRule_of_starts (h : StartsPrimary cs) :
    operandRule R semi ⟨pos, cs⟩ = (suffixed R semi >>= assigned R semi pos) ⟨pos, cs⟩ := by
  have hhead := h.head
  have hword := h.word
  simp only [operandRule, Reader.bind_apply, Reader.pos_apply, Reader.ahead_apply, Option.bind_some]
  split
  -- The operators before an operand are ruled out one by one.
  case h_7 =>
    clear hhead
    generalize headName? cs = word at hword
    split
    case h_6 => rfl
    all_goals simp [operatorWords] at hword
  all_goals simp_all

theorem suffixed_of_starts (h : StartsPrimary cs) :
    suffixed R semi ⟨pos, cs⟩ = (primary R semi >>= suffixes (fun o =>
      accessSuffix R pos o <|> callSuffix R semi pos o)) ⟨pos, cs⟩ := by
  have hnew : headName? cs ≠ some "new" := fun hnew => h.word "new" hnew (by decide)
  simp [suffixed, hnew]

/-- **A primary expression alone** is an operand. -/
theorem operandRule_of_primary (hs : StartsPrimary cs)
    (hp : primary R semi ⟨pos, cs⟩ = some (o, ⟨pos', rest⟩)) (h : EndsOperand rest) :
    operandRule R semi ⟨pos, cs⟩ = some (o, ⟨pos', rest⟩) := by
  have hsuffixes : suffixes (fun o => accessSuffix R pos o <|> callSuffix R semi pos o) o
      ⟨pos', rest⟩ = some (o, ⟨pos', rest⟩) :=
    suffixes_of_none (by simp [h.access, h.call])
  simp [operandRule_of_starts hs, suffixed_of_starts hs, hp, hsuffixes, assigned_of_ends h]

/-- **A primary expression with arguments** is an operand. -/
theorem operandRule_of_call (hs : StartsPrimary cs) {cs' : List Char} {mid : Nat} {args : List Expr}
    (hp : primary R semi ⟨pos, cs⟩ = some (o, ⟨mid, ' ' :: '(' :: cs'⟩))
    (hargs : arguments R ⟨mid + 1, '(' :: cs'⟩ = some (args, ⟨pos', rest⟩))
    (h : EndsOperand rest) :
    operandRule R semi ⟨pos, cs⟩
      = some (⟨.call o.expr args ⟨pos, pos'⟩, .other⟩, ⟨pos', rest⟩) := by
  have haccess : accessSuffix R pos o ⟨mid, ' ' :: '(' :: cs'⟩ = none := rfl
  have hcall : callSuffix R semi pos o ⟨mid, ' ' :: '(' :: cs'⟩
      = (arguments R >>= fun args => operandFrom pos .other (.call o.expr args))
        ⟨mid + 1, '(' :: cs'⟩ := by
    cases semi <;> rfl
  have hsuffixes : suffixes (fun o => accessSuffix R pos o <|> callSuffix R semi pos o) o
      ⟨mid, ' ' :: '(' :: cs'⟩ = some (⟨.call o.expr args ⟨pos, pos'⟩, .other⟩, ⟨pos', rest⟩) := by
    refine suffixes_of_some ?_ (by simp [h.access, h.call]) (List.cons_ne_nil _ _)
    simp [haccess, hcall, hargs, operandFrom, spanFrom]
  simp [operandRule_of_starts hs, suffixed_of_starts hs, hp, hsuffixes, assigned_of_ends h]

/-! ## Primary expressions -/

variable {text : String}

theorem startsPrimary_of_isWordChar {c : Char} (hc : isWordChar c)
    (hword : ∀ w ∈ headName? (c :: cs), w ∉ operatorWords) : StartsPrimary (c :: cs) := by
  refine ⟨?_, hword⟩
  rintro _ ⟨⟩
  exact ⟨ne_of_isWordChar hc rfl, ne_of_isWordChar hc rfl, ne_of_isWordChar hc rfl,
    ne_of_isWordChar hc rfl⟩

theorem startsPrimary_word (h : IsPlainName text) (hword : text ∉ operatorWords)
    (hrest : Boundary rest) : StartsPrimary (text.toList ++ rest) := by
  have hname := headName?_append h hrest
  obtain ⟨c, cs, htext, hc, -⟩ := h.exists_cons
  rw [htext, List.cons_append] at hname ⊢
  refine startsPrimary_of_isWordChar hc ?_
  rw [hname]
  rintro _ ⟨⟩
  exact hword

/-- A primary expression that starts with a character of a word is a number or
a word. -/
theorem primary_of_isWordChar {c : Char} (hc : isWordChar c) :
    primary R semi ⟨pos, c :: cs⟩ = (if c.isDigit then do
        let text ← Reader.token number?
        operandFrom pos .other (.literal (.number (String.ofList text)))
      else wordOperand R semi) ⟨pos, c :: cs⟩ := by
  have hpoint : c ≠ '.' := ne_of_isWordChar hc rfl
  simp only [primary, Reader.bind_apply, Reader.pos_apply, Reader.ahead_apply, Option.bind_some]
  generalize hl : c :: cs = l
  split
  case h_11 =>
    cases hl
    simp [hpoint]
  case h_12 => cases hl
  -- The other characters are no characters of words.
  all_goals
    cases hl
    cases hc

theorem primary_word (h : IsPlainName text) :
    primary R semi ⟨pos, text.toList ++ rest⟩ = wordOperand R semi ⟨pos, text.toList ++ rest⟩ := by
  obtain ⟨c, cs, htext, hc, hdigit⟩ := h.exists_cons
  rw [htext, List.cons_append, primary_of_isWordChar hc, if_neg (by simp [hdigit])]

theorem not_mem_operatorWords (h : text ∉ operandWords) : text ∉ operatorWords := by
  simp_all [operandWords, operatorWords]

/-- A word that stands for nothing else is a variable. -/
theorem primary_variable (h : IsPlainName text) (hfree : text ∉ operandWords)
    (hrest : Boundary rest) (harrow : ∀ pos, symbol "=>" ⟨pos, rest⟩ = none) :
    primary R semi ⟨pos, text.toList ++ rest⟩
      = some (⟨.identifier text ⟨pos, pos + byteLength text.toList⟩, .name⟩,
        ⟨pos + byteLength text.toList, rest⟩) := by
  rw [primary_word h]
  simp only [wordOperand, Reader.bind_apply, Reader.here_apply, Option.bind_some,
    name_append h hrest]
  split
  case h_6 => rfl
  case h_11 =>
    have hreserved : isReserved text = false := by
      simp_all [isReserved, operandWords]
    simp [hreserved, operandFrom, spanFrom, arrowRest, harrow]
  all_goals cases hfree (by decide)

theorem operandRule_variable (h : IsPlainName text) (hfree : text ∉ operandWords)
    (hrest : EndsOperand rest) :
    operandRule R semi ⟨pos, text.toList ++ rest⟩
      = some (⟨.identifier text ⟨pos, pos + byteLength text.toList⟩, .name⟩,
        ⟨pos + byteLength text.toList, rest⟩) :=
  operandRule_of_primary (startsPrimary_word h (not_mem_operatorWords hfree) hrest.boundary)
    (primary_variable h hfree hrest.boundary hrest.arrow) hrest

theorem operandRule_digits (h : IsDigits text) (hrest : EndsOperand rest) :
    operandRule R semi ⟨pos, text.toList ++ rest⟩
      = some (⟨.literal (.number text) ⟨pos, pos + byteLength text.toList⟩, .other⟩,
        ⟨pos + byteLength text.toList, rest⟩) := by
  obtain ⟨c, cs, htext, hc⟩ := h.exists_cons
  have hword := isWordChar_of_isDigit hc
  have hstarts : StartsPrimary (text.toList ++ rest) := by
    rw [htext]
    refine startsPrimary_of_isWordChar hword ?_
    rw [headName?_of_isDigit hc]
    rintro _ ⟨⟩
  refine operandRule_of_primary hstarts ?_ hrest
  rw [htext, List.cons_append, primary_of_isWordChar hword, if_pos hc, ← List.cons_append, ← htext]
  simp [Reader.token_append (number?_append h hrest.boundary), operandFrom, spanFrom]

/-- A sign before an integer makes a negative number. -/
theorem operandRule_negative (h : IsDigits text)
    (hoperand : R.operand semi ⟨pos + 1, text.toList ++ rest⟩
      = some (⟨.literal (.number text) ⟨pos + 1, pos'⟩, .other⟩, ⟨pos', rest⟩)) :
    operandRule R semi ⟨pos, '-' :: (text.toList ++ rest)⟩
      = some (⟨.literal (.number ("-" ++ text)) ⟨pos, pos'⟩, .other⟩, ⟨pos', rest⟩) := by
  obtain ⟨c, cs, htext, hc⟩ := h.exists_cons
  have hword := isWordChar_of_isDigit hc
  have hsign : c ≠ '-' := ne_of_isWordChar hword rfl
  have hsolid : Solid (text.toList ++ rest) := by
    rw [htext]
    exact solid_of_isWordChar hword _
  have hplain : plainNumber? (pos + 1) (.literal (.number text) ⟨pos + 1, pos'⟩) = some text := by
    simp [plainNumber?, htext, hsign]
  have hliteral : Reader.literal "-" ⟨pos, '-' :: (text.toList ++ rest)⟩
      = some ((), ⟨pos + 1, text.toList ++ rest⟩) := rfl
  have hprefixed : operandRule R semi ⟨pos, '-' :: (text.toList ++ rest)⟩
      = prefixed R semi (Reader.literal "-") false true ⟨pos, '-' :: (text.toList ++ rest)⟩ := by
    rw [htext, List.cons_append]
    simp only [operandRule, Reader.bind_apply, Reader.pos_apply, Reader.ahead_apply,
      Option.bind_some]
    generalize hl : '-' :: c :: (cs ++ rest) = l
    split
    case h_4 =>
      cases hl
      cases hsign rfl
    case h_6 => rfl
    case h_7 hminus => cases hminus _ hl.symm
    all_goals cases hl
  rw [hprefixed]
  simp [prefixed, hliteral, Reader.gap, Reader.marks_of_solid hsolid, hoperand, hplain, operandFrom,
    spanFrom]

/-- **A string alone** is an operand, whatever its value. -/
theorem operandRule_of_string {value : String}
    (hstring : Reader.string ⟨pos, '"' :: cs⟩ = some (value, ⟨pos', rest⟩))
    (hrest : EndsOperand rest) :
    operandRule R semi ⟨pos, '"' :: cs⟩
      = some (⟨.literal (.string value) ⟨pos, pos'⟩, .other⟩, ⟨pos', rest⟩) := by
  have hstarts : StartsPrimary ('"' :: cs) := by
    constructor
    · rintro _ ⟨⟩
      decide
    · rintro _ ⟨⟩
  refine operandRule_of_primary hstarts ?_ hrest
  have hprimary : primary R semi ⟨pos, '"' :: cs⟩ = (do
      let value ← Reader.string
      operandFrom pos .other (.literal (.string value))) ⟨pos, '"' :: cs⟩ := rfl
  rw [hprimary]
  simp only [Reader.bind_apply, hstring]
  rfl

theorem operandRule_string {value : String} (h : IsPlainText value) (hrest : EndsOperand rest)
    (htoken : text = "\"" ++ value ++ "\"") :
    operandRule R semi ⟨pos, text.toList ++ rest⟩
      = some (⟨.literal (.string value) ⟨pos, pos + byteLength text.toList⟩, .other⟩,
        ⟨pos + byteLength text.toList, rest⟩) := by
  have htext : text.toList ++ rest = '"' :: (value.toList ++ '"' :: rest) := by
    simp [htoken]
  have hstring : Reader.string ⟨pos, text.toList ++ rest⟩
      = some (value, ⟨pos + byteLength text.toList, rest⟩) := by
    rw [htoken]
    exact string_append h
  rw [htext] at hstring ⊢
  exact operandRule_of_string hstring hrest

/-- The words for truth values and for nothing. -/
theorem operandRule_constant {value : Literal} (hvalue : value = .null ∨ ∃ b, value = .boolean b)
    (hrest : EndsOperand rest) :
    operandRule R semi ⟨pos, value.token.toList ++ rest⟩
      = some (⟨.literal value ⟨pos, pos + byteLength value.token.toList⟩, .other⟩,
        ⟨pos + byteLength value.token.toList, rest⟩) := by
  have hword : IsPlainName value.token := by
    obtain rfl | ⟨_ | _, rfl⟩ := hvalue <;> exact ⟨by decide, by decide⟩
  have hoperator : value.token ∉ operatorWords := by
    obtain rfl | ⟨_ | _, rfl⟩ := hvalue <;> decide
  refine operandRule_of_primary (startsPrimary_word hword hoperator hrest.boundary) ?_ hrest
  rw [primary_word hword]
  simp only [wordOperand, Reader.bind_apply, Reader.here_apply, Option.bind_some,
    name_append hword hrest.boundary]
  obtain rfl | ⟨_ | _, rfl⟩ := hvalue <;> rfl

theorem operandRule_not (hsolid : Solid cs)
    (hoperand : R.operand semi ⟨pos + 2, cs⟩ = some (o, ⟨pos', rest⟩)) :
    operandRule R semi ⟨pos, '!' :: ' ' :: cs⟩
      = some (⟨.not o.expr ⟨pos, pos'⟩, .other⟩, ⟨pos', rest⟩) := by
  have hliteral : Reader.literal "!" ⟨pos, '!' :: ' ' :: cs⟩ = some ((), ⟨pos + 1, ' ' :: cs⟩) :=
    rfl
  show prefixed R semi (Reader.literal "!") true false ⟨pos, '!' :: ' ' :: cs⟩ = _
  simp [prefixed, hliteral, Reader.gap, Reader.marks_of_space hsolid, hoperand, operandFrom,
    spanFrom]

/-- An expression in parentheses. -/
theorem operandRule_paren (hsolid : Solid cs)
    (hexpression : R.expression false 0 ⟨pos + 2, cs⟩ = some (o, ⟨pos', ' ' :: ')' :: rest⟩))
    (hrest : EndsOperand rest) :
    operandRule R semi ⟨pos, '(' :: ' ' :: cs⟩
      = some (⟨o.expr, .parenthesized⟩, ⟨pos' + 2, rest⟩) := by
  have hstarts : StartsPrimary ('(' :: ' ' :: cs) := by
    constructor
    · rintro _ ⟨⟩
      decide
    · rintro _ ⟨⟩
  have hopening : Reader.literal "(" ⟨pos, '(' :: ' ' :: cs⟩ = some ((), ⟨pos + 1, ' ' :: cs⟩) :=
    rfl
  have hcomma : symbol "," ⟨pos', ' ' :: ')' :: rest⟩ = none := rfl
  have hclosing : symbol ")" ⟨pos', ' ' :: ')' :: rest⟩ = some ((), ⟨pos' + 2, rest⟩) := rfl
  have hassignment : R.assignment false ⟨pos + 2, cs⟩ = some (o, ⟨pos', ' ' :: ')' :: rest⟩) :=
    hexpression
  have hparenthesized : parenthesized R ⟨pos, '(' :: ' ' :: cs⟩
      = some (o.expr, ⟨pos' + 2, rest⟩) := by
    have hround : (do
        symbol ","
        Reader.gap
        R.assignment false : Reader Operand) ⟨pos', ' ' :: ')' :: rest⟩ = none := by
      simp [hcomma]
    simp [parenthesized, hopening, Reader.marks_of_space hsolid, expressionList, hassignment,
      Reader.manyUpTo_of_none hround, hclosing]
  refine operandRule_of_primary hstarts ?_ hrest
  show parenthesizedOrArrow R semi ⟨pos, '(' :: ' ' :: cs⟩ = _
  simp [parenthesizedOrArrow, hparenthesized, hrest.arrow]

/-- A call of a named function. -/
theorem operandRule_named_call (h : IsPlainName text) (hfree : text ∉ operandWords)
    {args : List Expr}
    (hargs : arguments R ⟨pos + byteLength text.toList + 1, '(' :: cs⟩ = some (args, ⟨pos', rest⟩))
    (hrest : EndsOperand rest) :
    operandRule R semi ⟨pos, text.toList ++ ' ' :: '(' :: cs⟩
      = some (⟨.call (.identifier text ⟨pos, pos + byteLength text.toList⟩) args ⟨pos, pos'⟩,
        .other⟩, ⟨pos', rest⟩) := by
  have hboundary : Boundary (' ' :: '(' :: cs) := ⟨' ', _, rfl, .inl rfl⟩
  have harrow : ∀ pos, symbol "=>" ⟨pos, ' ' :: '(' :: cs⟩ = none := fun _ => rfl
  exact operandRule_of_call (startsPrimary_word h (not_mem_operatorWords hfree) hboundary)
    (primary_variable h hfree hboundary harrow) hargs hrest

/-! ## Expressions -/

/-- **An operand alone** is an expression. -/
theorem expressionRule_of_operand {bound : Nat}
    (h : operandRule R semi ⟨pos, cs⟩ = some (o, ⟨pos', rest⟩)) (hrest : EndsExpression rest) :
    expressionRule R semi bound ⟨pos, cs⟩ = some (o, ⟨pos', rest⟩) := by
  have hnext : suffixes (fun o => joined R semi bound pos o <|> conditional R semi bound pos) o
      ⟨pos', rest⟩ = some (o, ⟨pos', rest⟩) :=
    suffixes_of_none (by simp [joined, conditional, hrest.connective, hrest.question])
  simp [expressionRule, h, hnext]

/-- **Two operands with an operator between them** are an expression. -/
theorem expressionRule_of_joined {c : Connective} {mid : Nat} {cs' : List Char}
    {left right : Operand}
    (hleft : operandRule R semi ⟨pos, cs⟩
      = some (left, ⟨mid, ' ' :: (c.token.toList ++ ' ' :: cs')⟩))
    (hsolid : Solid cs')
    (hright : R.expression semi c.rightBound ⟨mid + 1 + byteLength c.token.toList + 1, cs'⟩
      = some (right, ⟨pos', rest⟩))
    (hrest : EndsExpression rest) :
    expressionRule R semi 0 ⟨pos, cs⟩
      = some (⟨c.apply left.expr right.expr ⟨pos, pos'⟩, .other⟩, ⟨pos', rest⟩) := by
  have hconnective : connective 0 ⟨mid, ' ' :: (c.token.toList ++ ' ' :: cs')⟩
      = some (c, ⟨mid + 1 + byteLength c.token.toList, ' ' :: cs'⟩) := by
    have htrivia : Reader.trivia ⟨mid, ' ' :: (c.token.toList ++ ' ' :: cs')⟩
        = some ((), ⟨mid + 1, c.token.toList ++ ' ' :: cs'⟩) := by
      rcases c with op | op | _ <;> (try cases op) <;> rfl
    simp [connective, htrivia, connective?_token]
  have hnext : suffixes (fun o => joined R semi 0 pos o <|> conditional R semi 0 pos) left
      ⟨mid, ' ' :: (c.token.toList ++ ' ' :: cs')⟩
        = some (⟨c.apply left.expr right.expr ⟨pos, pos'⟩, .other⟩, ⟨pos', rest⟩) := by
    refine suffixes_of_some ?_ ?_ (List.cons_ne_nil _ _)
    · simp [joined, hconnective, Reader.gap, Reader.marks_of_space hsolid, hright, operandFrom,
        spanFrom]
    · simp [joined, conditional, hrest.connective, hrest.question]
  simp [expressionRule, hleft, hnext]

end Operand

/-! ## Arguments -/

/-- A text that starts with a word, a string or a parenthesis. -/
def StartsPart (cs : List Char) : Prop :=
  ∃ c cs', cs = c :: cs' ∧ (isWordChar c ∨ c = '"' ∨ c = '(')

/-- **A reader takes a text for an expression**, if what follows ends it. -/
def Reads (Ends : List Char → Prop) (r : Reader Operand) (text : List Char) (e : Expr) : Prop :=
  ∀ pos rest, Ends rest → ∃ o pos', r ⟨pos, text ++ rest⟩ = some (o, ⟨pos', rest⟩)
    ∧ o.expr.stripSpans = e.stripSpans

section Arguments

variable {R : Readers} {pos : Nat} {cs rest : List Char}

theorem StartsPart.append (h : StartsPart cs) (rest : List Char) : StartsPart (cs ++ rest) := by
  obtain ⟨c, cs, rfl, hc⟩ := h
  exact ⟨c, cs ++ rest, rfl, hc⟩

theorem StartsPart.solid (h : StartsPart cs) : Solid cs := by
  obtain ⟨c, cs, rfl, hc | rfl | rfl⟩ := h
  · exact solid_of_isWordChar hc cs
  · exact solid_cons rfl (by decide) (by decide) (by decide)
  · exact solid_cons rfl (by decide) (by decide) (by decide)

theorem StartsPart.literal_dots (h : StartsPart cs) : Reader.literal "..." ⟨pos, cs⟩ = none := by
  obtain ⟨c, cs, rfl, hc⟩ := h
  have hdot : c ≠ '.' := by
    obtain hc | rfl | rfl := hc
    · exact ne_of_isWordChar hc rfl
    · decide
    · decide
  simp [Reader.literal, hdot.symm]

/-- An argument behind a space. -/
theorem slot_of_expression {o : Operand} {d : Cursor} (hstart : StartsPart cs)
    (h : R.expression false 0 ⟨pos + 1, cs⟩ = some (o, d)) :
    slot R ⟨pos, ' ' :: cs⟩ = some ([o.expr], d) := by
  have hassignment : R.assignment false ⟨pos + 1, cs⟩ = some (o, d) := h
  simp [slot, Reader.marks_of_space hstart.solid, item, hstart.literal_dots, hassignment]

/-- No argument before a closing parenthesis. -/
theorem slot_of_paren (h : R.expression false 0 ⟨pos + 1, ')' :: rest⟩ = none) :
    slot R ⟨pos, ' ' :: ')' :: rest⟩ = some ([], ⟨pos + 1, ')' :: rest⟩) := by
  have hassignment : R.assignment false ⟨pos + 1, ')' :: rest⟩ = none := h
  have hsolid : Solid (')' :: rest) := solid_cons rfl (by decide) (by decide) (by decide)
  have hdots : Reader.literal "..." ⟨pos + 1, ')' :: rest⟩ = none := rfl
  simp [slot, Reader.marks_of_space hsolid, item, hdots, hassignment]

theorem endsExpression_moreArguments (es : List Expr) (rest : List Char) :
    EndsExpression (Expr.moreArguments es ++ ' ' :: ')' :: rest) := by
  cases es with
  | nil => exact endsExpression_of (.inr (.inl rfl))
  | cons e es => exact endsExpression_of (.inr (.inr rfl))

/-- **The arguments behind the first one** are read, one by one. -/
theorem manyUpTo_slots {es : List Expr} (hstart : ∀ e ∈ es, StartsPart (e.print true).toList)
    (hread : ∀ e ∈ es, Reads EndsExpression (R.expression false 0) (e.print true).toList e)
    {limit : Nat} (hlimit : es.length ≤ limit) (pos : Nat) (rest : List Char) : ∃ groups pos',
      Reader.manyUpTo (do symbol ","; slot R) limit
          ⟨pos, Expr.moreArguments es ++ ' ' :: ')' :: rest⟩
        = some (groups, ⟨pos', ' ' :: ')' :: rest⟩)
      ∧ groups.flatten.map Expr.stripSpans = es.map Expr.stripSpans := by
  induction es generalizing limit pos with
  | nil =>
    have hcomma : symbol "," ⟨pos, ' ' :: ')' :: rest⟩ = none := rfl
    have hround : (do symbol ","; slot R : Reader _) ⟨pos, ' ' :: ')' :: rest⟩ = none := by
      simp [hcomma]
    exact ⟨[], pos, Reader.manyUpTo_of_none hround limit, rfl⟩
  | cons e es ih =>
    obtain ⟨limit, rfl⟩ : ∃ k, limit = k + 1 := ⟨limit - 1, by simp at hlimit; omega⟩
    have htext : Expr.moreArguments (e :: es) ++ ' ' :: ')' :: rest = ' ' :: ',' :: ' ' ::
        ((e.print true).toList ++ (Expr.moreArguments es ++ ' ' :: ')' :: rest)) := by
      simp [Expr.moreArguments]
    have hcomma : ∀ cs, symbol "," ⟨pos, ' ' :: ',' :: cs⟩ = some ((), ⟨pos + 2, cs⟩) :=
      fun _ => rfl
    obtain ⟨o, mid, ho, hstrip⟩ := hread e List.mem_cons_self (pos + 2 + 1) _
      (endsExpression_moreArguments es rest)
    obtain ⟨groups, pos', hgroups, hstrips⟩ := ih (fun e he => hstart e (List.mem_cons_of_mem _ he))
      (fun e he => hread e (List.mem_cons_of_mem _ he)) (Nat.le_of_succ_le_succ hlimit) mid
    have hslot := slot_of_expression ((hstart e List.mem_cons_self).append _) ho
    refine ⟨[o.expr] :: groups, pos', ?_, by simp [hstrip, hstrips]⟩
    rw [htext]
    exact Reader.manyUpTo_succ (by simp [hcomma, hslot]) hgroups

theorem startsPart_print {e : Expr} (h : e.Plain) : StartsPart (e.print true).toList := by
  have henclosed : e.tokens true = enclose true (e.tokens false) →
      StartsPart (e.print true).toList := fun htokens =>
    ⟨'(', _, h.toList_print_enclosed htokens, .inr (.inr rfl)⟩
  cases h with
  | identifier hword =>
    obtain ⟨c, cs, htext, hc, -⟩ := hword.exists_cons
    exact ⟨c, cs, htext, .inl hc⟩
  | number hdigits =>
    obtain ⟨c, cs, htext, hc⟩ := hdigits.exists_cons
    rw [Expr.toList_print_literal (.inr hdigits.isNegative)]
    exact ⟨c, cs, htext, .inl (isWordChar_of_isDigit hc)⟩
  | negative => exact henclosed (Expr.tokens_negative _ _)
  | @boolean value =>
    rw [Expr.toList_print_literal (.inr rfl)]
    cases value <;> exact ⟨_, _, rfl, .inl rfl⟩
  | null =>
    rw [Expr.toList_print_literal (.inr rfl)]
    exact ⟨_, _, rfl, .inl rfl⟩
  | @string value =>
    rw [Expr.toList_print_literal (.inr rfl)]
    exact ⟨'"', value.toList ++ ['"'], by simp [Literal.token], .inr (.inl rfl)⟩
  | binary | logical | not | call => exact henclosed rfl

theorem toList_negative (text : String) :
    (Literal.number ("-" ++ text)).token.toList = '-' :: text.toList := by
  simp [Literal.token, Literal.text]

/-- A minus sign that is no part of a mark. -/
theorem solid_minus {c : Char} (h : c ≠ '-') (cs : List Char) : Solid ('-' :: c :: cs) := by
  refine ⟨rfl, ?_, rfl⟩
  unfold mark?
  split
  · simp_all
  · simp_all
  · rfl

/-- A printed expression starts with a token. -/
theorem solid_print {e : Expr} (h : e.Plain) (inner : Bool) (rest : List Char) :
    Solid ((e.print inner).toList ++ rest) := by
  have hpart := ((startsPart_print h).append rest).solid
  cases inner with
  | true => exact hpart
  | false =>
    cases h with
    | identifier | boolean | null | string => exact hpart
    | number hdigits =>
      rw [Expr.toList_print_literal (.inr hdigits.isNegative)] at hpart
      rw [Expr.toList_print_literal (.inl rfl)]
      exact hpart
    | negative hdigits =>
      obtain ⟨c, cs, htext, hc⟩ := hdigits.exists_cons
      rw [Expr.toList_print_literal (.inl rfl), toList_negative, htext]
      exact solid_minus (ne_of_isWordChar (isWordChar_of_isDigit hc) rfl) _
    | binary hleft hright | logical hleft hright =>
      rw [hleft.toList_print_joined hright rfl, List.append_assoc]
      exact ((startsPart_print hleft).append _).solid
    | not hargument =>
      rw [hargument.toList_print_not]
      exact solid_cons rfl (by decide) (by decide) (by decide)
    | call hword =>
      obtain ⟨c, cs, htext, hc, -⟩ := hword.exists_cons
      rw [Expr.toList_print_call, htext]
      exact solid_of_isWordChar hc _

/-- **The arguments of a call** are read as they are printed. -/
theorem arguments_of_tokens {es : List Expr} (hplain : ∀ e ∈ es, e.Plain)
    (hread : ∀ e ∈ es, Reads EndsExpression (R.expression false 0) (e.print true).toList e)
    (hnil : ∀ pos rest, R.expression false 0 ⟨pos, ')' :: rest⟩ = none) (pos : Nat)
    (rest : List Char) : ∃ args pos', arguments R
        ⟨pos, '(' :: (spaced (Expr.argumentTokens es) ++ ' ' :: ')' :: rest)⟩
          = some (args, ⟨pos', rest⟩)
      ∧ args.map Expr.stripSpans = es.map Expr.stripSpans := by
  have hopening : ∀ cs, Reader.literal "(" ⟨pos, '(' :: cs⟩ = some ((), ⟨pos + 1, cs⟩) :=
    fun _ => rfl
  cases es with
  | nil =>
    have hslot := slot_of_paren (hnil (pos + 1 + 1) rest)
    have hcomma : symbol "," ⟨pos + 1 + 1, ')' :: rest⟩ = none := rfl
    have hclosing : symbol ")" ⟨pos + 1 + 1, ')' :: rest⟩ = some ((), ⟨pos + 1 + 1 + 1, rest⟩) :=
      rfl
    have hround : (do symbol ","; slot R : Reader _) ⟨pos + 1 + 1, ')' :: rest⟩ = none := by
      simp [hcomma]
    refine ⟨[], pos + 1 + 1 + 1, ?_, rfl⟩
    simp only [arguments, items, Expr.argumentTokens, spaced_nil, List.nil_append,
      Reader.bind_apply, hopening, Option.bind_some, hslot, Reader.many_apply,
      Reader.manyUpTo_of_none hround, hclosing]
    rfl
  | cons e es =>
    have hplain' := List.forall_mem_cons.1 hplain
    have hread' := List.forall_mem_cons.1 hread
    obtain ⟨o, mid, ho, hstrip⟩ := hread'.1 (pos + 1 + 1) _ (endsExpression_moreArguments es rest)
    have hlimit : es.length ≤ (Expr.moreArguments es ++ ' ' :: ')' :: rest).length :=
      Nat.le_trans (Expr.length_le_moreArguments es) (by simp)
    obtain ⟨groups, pos', hgroups, hstrips⟩ := manyUpTo_slots
      (fun e he => startsPart_print (hplain'.2 e he)) hread'.2 hlimit mid rest
    have hslot := slot_of_expression ((startsPart_print hplain'.1).append _) ho
    have hclosing : symbol ")" ⟨pos', ' ' :: ')' :: rest⟩ = some ((), ⟨pos' + 2, rest⟩) := rfl
    refine ⟨o.expr :: groups.flatten, pos' + 2, ?_, by simp [hstrip, hstrips]⟩
    rw [Expr.spaced_argumentTokens hplain, List.cons_append, List.append_assoc]
    simp only [arguments, items, Reader.bind_apply, hopening, Option.bind_some, hslot,
      Reader.many_apply, hgroups, hclosing]
    rfl

end Arguments

/-! ## Printed expressions -/

/-- **An expression that is read back** as it is printed, as a part of another
expression and as a whole. -/
structure ReadBack (e : Expr) : Prop where
  /-- As a part it is an operand. -/
  part : ∀ n semi, (e.print true).toList.length ≤ n →
    Reads EndsOperand (operandRule (readers n) semi) (e.print true).toList e
  /-- As a whole it is an expression. -/
  whole : ∀ n semi, (e.print false).toList.length ≤ n →
    Reads EndsExpression (expressionRule (readers n) semi 0) (e.print false).toList e

section ReadBack

variable {e : Expr} {n : Nat} {semi : Bool}

theorem Reads.expression {R : Readers} {text : List Char}
    (h : Reads EndsOperand (operandRule R semi) text e) (bound : Nat) :
    Reads EndsExpression (expressionRule R semi bound) text e := by
  intro pos rest hrest
  obtain ⟨o, pos', ho, hstrip⟩ := h pos rest hrest.toEndsOperand
  exact ⟨o, pos', expressionRule_of_operand ho hrest, hstrip⟩

/-- A part is read with the readers for one level more. -/
theorem ReadBack.operand (h : ReadBack e) (hn : (e.print true).toList.length < n) (semi : Bool) :
    Reads EndsOperand ((readers n).operand semi) (e.print true).toList e := by
  obtain ⟨m, rfl⟩ : ∃ m, n = m + 1 := ⟨n - 1, by omega⟩
  exact h.part m semi (by omega)

theorem ReadBack.expression (h : ReadBack e) (hn : (e.print true).toList.length < n) (semi : Bool)
    (bound : Nat) :
    Reads EndsExpression ((readers n).expression semi bound) (e.print true).toList e := by
  obtain ⟨m, rfl⟩ : ∃ m, n = m + 1 := ⟨n - 1, by omega⟩
  exact (h.part m semi (by omega)).expression bound

/-- A printed expression is read, whether it stands in parentheses or not. -/
theorem ReadBack.expression_print (h : ReadBack e) {inner : Bool}
    (hn : (e.print inner).toList.length < n) (semi : Bool) :
    Reads EndsExpression ((readers n).expression semi 0) (e.print inner).toList e := by
  cases inner with
  | true => exact h.expression hn semi 0
  | false =>
    obtain ⟨m, rfl⟩ : ∃ m, n = m + 1 := ⟨n - 1, by omega⟩
    exact h.whole m semi (by omega)

/-- What is printed the same as a part and as a whole. -/
theorem readBack_of_part {text : List Char} (hpart : (e.print true).toList = text)
    (hwhole : (e.print false).toList = text)
    (h : ∀ R semi, Reads EndsOperand (operandRule R semi) text e) : ReadBack e where
  part n semi _ := by
    rw [hpart]
    exact h (readers n) semi
  whole n semi _ := by
    rw [hwhole]
    exact (h (readers n) semi).expression 0

/-- What stands in parentheses as a part. -/
theorem readBack_of_whole (hplain : e.Plain)
    (htokens : e.tokens true = enclose true (e.tokens false))
    (h : ∀ n semi, (e.print false).toList.length ≤ n →
      Reads EndsExpression (expressionRule (readers n) semi 0) (e.print false).toList e) :
    ReadBack e where
  part n semi hn := by
    rw [hplain.toList_print_enclosed htokens] at hn ⊢
    simp only [List.length_cons, List.length_append, List.length_nil] at hn
    obtain ⟨m, rfl⟩ : ∃ m, n = m + 1 := ⟨n - 1, by omega⟩
    intro pos rest hrest
    obtain ⟨o, pos', ho, hstrip⟩ := h m false (by omega) (pos + 2) (' ' :: ')' :: rest)
      (endsExpression_of (.inr (.inl rfl)))
    refine ⟨⟨o.expr, .parenthesized⟩, pos' + 2, ?_, hstrip⟩
    rw [List.cons_append, List.cons_append, List.append_assoc]
    exact operandRule_paren (solid_print hplain false _) ho hrest
  whole := h

/-- What is an operand as a whole. -/
theorem readBack_of_operand (hplain : e.Plain)
    (htokens : e.tokens true = enclose true (e.tokens false))
    (h : ∀ n semi, (e.print false).toList.length ≤ n →
      Reads EndsOperand (operandRule (readers n) semi) (e.print false).toList e) : ReadBack e :=
  readBack_of_whole hplain htokens fun n semi hn => (h n semi hn).expression 0

/-- Two parts with an operator between them. -/
theorem readBack_joined {left right : Expr} (hplain : e.Plain) (c : Connective)
    (htokens : e.tokens false = left.tokens true ++ c.token :: right.tokens true)
    (htokens' : e.tokens true = enclose true (e.tokens false))
    (happly : ∀ l r span, l.stripSpans = left.stripSpans → r.stripSpans = right.stripSpans →
      (c.apply l r span).stripSpans = e.stripSpans)
    (hleft : left.Plain) (hright : right.Plain) (ihleft : ReadBack left)
    (ihright : ReadBack right) : ReadBack e := by
  refine readBack_of_whole hplain htokens' fun n semi hn => ?_
  rw [hleft.toList_print_joined hright htokens] at hn ⊢
  simp only [List.length_append, List.length_cons] at hn
  intro pos rest hrest
  rw [List.append_assoc, List.cons_append, List.append_assoc, List.cons_append]
  obtain ⟨l, mid, hl, hlstrip⟩ := ihleft.part n semi (by omega) pos _
    (endsOperand_connective c ((right.print true).toList ++ rest))
  obtain ⟨r, pos', hr, hrstrip⟩ := ihright.expression (n := n) (by omega) semi c.rightBound
    (mid + 1 + byteLength c.token.toList + 1) rest hrest
  exact ⟨_, pos', expressionRule_of_joined hl (solid_print hright true rest) hr hrest,
    happly _ _ _ hlstrip hrstrip⟩

/-- A literal without a sign. -/
theorem readBack_literal {value : Literal} {span : Span} (hvalue : value.isNegative = false)
    (h : ∀ R semi pos rest, EndsOperand rest →
      operandRule R semi ⟨pos, value.token.toList ++ rest⟩
        = some (⟨.literal value ⟨pos, pos + byteLength value.token.toList⟩, .other⟩,
          ⟨pos + byteLength value.token.toList, rest⟩)) :
    ReadBack (.literal value span) :=
  readBack_of_part (Expr.toList_print_literal (.inr hvalue) span)
    (Expr.toList_print_literal (.inl rfl) span)
    fun R semi pos rest hrest => ⟨_, _, h R semi pos rest hrest, rfl⟩

/-- **Plain expressions are read back.** -/
theorem readBack_of_plain (h : e.Plain) : ReadBack e := by
  induction h with
  | @identifier name span hword hfree =>
    exact readBack_of_part rfl rfl fun R semi pos rest hrest =>
      ⟨_, _, operandRule_variable hword hfree hrest, rfl⟩
  | number hdigits =>
    exact readBack_literal hdigits.isNegative fun _ _ _ _ hrest => operandRule_digits hdigits hrest
  | boolean =>
    exact readBack_literal rfl fun _ _ _ _ hrest => operandRule_constant (.inr ⟨_, rfl⟩) hrest
  | null => exact readBack_literal rfl fun _ _ _ _ hrest => operandRule_constant (.inl rfl) hrest
  | string hvalue =>
    exact readBack_literal rfl fun _ _ _ _ hrest => operandRule_string hvalue hrest rfl
  | @negative text span hdigits =>
    refine readBack_of_operand (.negative hdigits) (Expr.tokens_negative text span)
      fun n semi hn pos rest hrest => ?_
    rw [Expr.toList_print_literal (.inl rfl), toList_negative] at hn ⊢
    obtain ⟨m, rfl⟩ : ∃ m, n = m + 1 := ⟨n - 1, by simp at hn; omega⟩
    exact ⟨_, _, operandRule_negative hdigits (operandRule_digits hdigits hrest), rfl⟩
  | @binary op left right span hleft hright ihleft ihright =>
    refine readBack_joined (.binary hleft hright) (.binary op) rfl rfl ?_ hleft hright ihleft
      ihright
    intro l r span hl hr
    simp [Connective.apply, Expr.stripSpans, hl, hr]
  | @logical op left right span hleft hright ihleft ihright =>
    refine readBack_joined (.logical hleft hright) (.logical op) rfl rfl ?_ hleft hright ihleft
      ihright
    intro l r span hl hr
    simp [Connective.apply, Expr.stripSpans, hl, hr]
  | @not argument span hargument ih =>
    refine readBack_of_operand (.not hargument) rfl fun n semi hn pos rest hrest => ?_
    rw [hargument.toList_print_not, List.length_cons, List.length_cons] at hn
    obtain ⟨o, pos', ho, hstrip⟩ := ih.operand (n := n) (by omega) semi (pos + 2) rest hrest
    rw [hargument.toList_print_not]
    refine ⟨_, pos', operandRule_not (solid_print hargument true rest) ho, ?_⟩
    simp [Expr.stripSpans, hstrip]
  | @call name arguments at_ span hword hfree hplain ih =>
    refine readBack_of_operand (.call hword hfree hplain) rfl fun n semi hn pos rest hrest => ?_
    rw [Expr.toList_print_call] at hn ⊢
    simp only [List.length_append, List.length_cons, List.length_nil] at hn
    have hread : ∀ a ∈ arguments,
        Reads EndsExpression ((readers n).expression false 0) (a.print true).toList a := by
      intro a ha
      have hle := Expr.length_print_le hplain ha
      exact (ih a ha).expression (by omega) false 0
    have hnil : ∀ pos rest, (readers n).expression false 0 ⟨pos, ')' :: rest⟩ = none := by
      cases n <;> exact fun _ _ => rfl
    obtain ⟨args, pos', hargs, hstrip⟩ := arguments_of_tokens hplain hread hnil
      (pos + byteLength name.toList + 1) rest
    rw [List.append_assoc, List.cons_append, List.cons_append, List.append_assoc]
    refine ⟨_, pos', operandRule_named_call hword hfree hargs hrest, ?_⟩
    simp [Expr.stripSpans, Expr.stripSpansAll_eq_map, hstrip]

end ReadBack

/-! ## The declaration -/

section Declaration

variable {R : Readers} {cs rest : List Char} {o : Operand} {pos pos' : Nat} (hsolid : Solid cs)
include hsolid

/-- A binding of `v` to a value. -/
theorem declarator_of_expression
    (h : R.expression true 0 ⟨pos + 4, cs⟩ = some (o, ⟨pos', rest⟩)) :
    declarator R ⟨pos, 'v' :: ' ' :: '=' :: ' ' :: cs⟩
      = some (⟨.identifier "v" ⟨pos, pos + 1⟩, some o.expr, ⟨pos, pos'⟩⟩, ⟨pos', rest⟩) := by
  have hword : IsPlainName "v" := ⟨by decide, by decide⟩
  have hname : Reader.name ⟨pos, 'v' :: ' ' :: '=' :: ' ' :: cs⟩
      = some ("v", ⟨pos + 1, ' ' :: '=' :: ' ' :: cs⟩) :=
    name_append hword ⟨' ', _, rfl, .inl rfl⟩
  have hended : Reader.atSupplied true ⟨pos + 1, ' ' :: '=' :: ' ' :: cs⟩
      = some (false, ⟨pos + 1, ' ' :: '=' :: ' ' :: cs⟩) := rfl
  have hequals : equalsSign ⟨pos + 1, ' ' :: '=' :: ' ' :: cs⟩
      = some ((), ⟨pos + 3, ' ' :: cs⟩) := rfl
  have hassignment : R.assignment true ⟨pos + 3 + 1, cs⟩ = some (o, ⟨pos', rest⟩) := h
  simp [declarator, bindingTarget, hname, spanFrom, hended, initializer, hequals, Reader.gap,
    Reader.marks_of_space hsolid, hassignment]

/-- A declaration of `v` with a value. -/
theorem letDeclaration_of_expression
    (h : R.expression true 0 ⟨pos + 8, cs⟩ = some (o, ⟨pos', ';' :: rest⟩)) :
    letDeclaration R ⟨pos, 'l' :: 'e' :: 't' :: ' ' :: 'v' :: ' ' :: '=' :: ' ' :: cs⟩
      = some (.declaration .let
          [⟨.identifier "v" ⟨pos + 4, pos + 5⟩, some o.expr, ⟨pos + 4, pos'⟩⟩] ⟨pos, pos' + 1⟩,
        ⟨pos' + 1, rest⟩) := by
  have hlet : IsPlainName "let" := ⟨by decide, by decide⟩
  have hv : IsPlainName "v" := ⟨by decide, by decide⟩
  have hname : Reader.name ⟨pos, 'l' :: 'e' :: 't' :: ' ' :: 'v' :: ' ' :: '=' :: ' ' :: cs⟩
      = some ("let", ⟨pos + 3, ' ' :: 'v' :: ' ' :: '=' :: ' ' :: cs⟩) :=
    name_append hlet ⟨' ', _, rfl, .inl rfl⟩
  have hsupplied : Reader.atSupplied false ⟨pos + 3, ' ' :: 'v' :: ' ' :: '=' :: ' ' :: cs⟩
      = some (false, ⟨pos + 3, ' ' :: 'v' :: ' ' :: '=' :: ' ' :: cs⟩) := rfl
  have htrivia : Reader.trivia ⟨pos + 3, ' ' :: 'v' :: ' ' :: '=' :: ' ' :: cs⟩
      = some ((), ⟨pos + 4, 'v' :: ' ' :: '=' :: ' ' :: cs⟩) := rfl
  have hhead : headName? ('v' :: ' ' :: '=' :: ' ' :: cs) = some "v" :=
    headName?_append hv ⟨' ', _, rfl, .inl rfl⟩
  have hdeclarator := declarator_of_expression hsolid h
  have hcomma : symbol "," ⟨pos', ';' :: rest⟩ = none := rfl
  have hsemicolon : Reader.semicolon false ⟨pos', ';' :: rest⟩ = some ((), ⟨pos' + 1, rest⟩) := rfl
  simp [letDeclaration, Reader.keyword, hname, hsupplied, htrivia, hhead, declarationRest,
    hdeclarator, declaratorsUpTo, hcomma, hsemicolon, statementFrom, spanFrom]

end Declaration

theorem statementRule_of_let {R : Readers} {pos : Nat} {cs : List Char} {found : Stmt × Cursor}
    (h : letDeclaration R ⟨pos, 'l' :: 'e' :: 't' :: ' ' :: cs⟩ = some found) :
    statementRule R ⟨pos, 'l' :: 'e' :: 't' :: ' ' :: cs⟩ = some found := by
  have hword : IsPlainName "let" := ⟨by decide, by decide⟩
  have hhead : headName? ('l' :: 'e' :: 't' :: ' ' :: cs) = some "let" :=
    headName?_append hword ⟨' ', _, rfl, .inl rfl⟩
  simp [statementRule, hhead, wordStatement, h]

end ScriptToShell.Grammar

namespace ScriptToShell

open Scan Grammar

/-- **A text that is one statement** is a program, unless the statement is a
directive. -/
theorem Program.exists_of_statement {text : String} {s : Stmt} {pos : Nat}
    (hnull : '\x00' ∉ text.toList) (hsolid : Solid text.toList) (hne : text.toList ≠ [])
    (hline : interpreterLine (.at text.toList 0) = none) (hs : isDirective s = false)
    (h : statementRule (readers text.toList.length) (.at text.toList 0) = some (s, ⟨pos, []⟩)) :
    ∃ p, Program.parse text = .ok p ∧ p.body = [s] := by
  have hround : markedStatement (readers (text.toList.length + 1)) (.at text.toList 0)
      = some ([s], ⟨pos, []⟩) := by
    have hmarks : Reader.marks (.at text.toList 0) = some ([], .at text.toList 0) :=
      Reader.marks_of_solid hsolid 0
    have hstatement : (readers (text.toList.length + 1)).statement (.at text.toList 0)
        = some (s, ⟨pos, []⟩) := h
    simp [markedStatement, hmarks, hstatement]
  obtain ⟨limit, hlimit⟩ := Nat.exists_eq_add_of_lt (List.length_pos_iff.2 hne)
  have hmany : Reader.many (markedStatement (readers (text.toList.length + 1))) (.at text.toList 0)
      = some ([[s]], ⟨pos, []⟩) := by
    have hlength : (Cursor.at text.toList 0).rest.length = limit + 1 := hlimit.trans (by omega)
    rw [Reader.many_apply, hlength]
    exact Reader.manyUpTo_succ hround (Reader.manyUpTo_of_none (markedStatement_end _ pos) limit)
  have hmarks : Reader.marks ⟨pos, []⟩ = some ([], ⟨pos, []⟩) := rfl
  refine ⟨_, Program.parse_eq_ok_iff.2 ⟨hnull, [s], ⟨pos, []⟩, ?_, rfl, rfl⟩, rfl⟩
  rw [programBody_of_no_line hline, statements_eq, statementsOf, Reader.bind_apply, hmany]
  simp [hmarks, hs]

/-- **Reading undoes printing.** A declaration of a variable with a printed
plain expression as its value is read as just this, but for the spans, whether
the expression stands in parentheses as a whole or not. -/
theorem Program.parse_print {e : Expr} (h : e.Plain) (inner : Bool) : ∃ p,
    Program.parse ("let v = " ++ e.print inner ++ ";") = .ok p
      ∧ p.stripSpans = ⟨[.declaration .let
        [⟨.identifier "v" .nowhere, some e.stripSpans, .nowhere⟩] .nowhere], .nowhere⟩ := by
  have htext : ("let v = " ++ e.print inner ++ ";").toList = 'l' :: 'e' :: 't' :: ' ' :: 'v'
      :: ' ' :: '=' :: ' ' :: ((e.print inner).toList ++ [';']) := by
    simp
  generalize "let v = " ++ e.print inner ++ ";" = text at htext ⊢
  have hlength : (e.print inner).toList.length < text.toList.length := by
    rw [htext]
    simp only [List.length_cons, List.length_append]
    omega
  obtain ⟨o, pos, ho, hstrip⟩ := (readBack_of_plain h).expression_print hlength true 8 [';']
    (endsExpression_of (.inl rfl))
  have hat : Cursor.at text.toList 0 = ⟨0, text.toList⟩ := rfl
  have hnull : '\x00' ∉ text.toList := by
    rw [htext]
    simpa using h.null_not_mem_print inner
  have hsolid : Solid text.toList := by
    rw [htext]
    exact solid_cons rfl (by decide) (by decide) (by decide)
  have hne : text.toList ≠ [] := by
    rw [htext]
    exact List.cons_ne_nil _ _
  have hline : interpreterLine (.at text.toList 0) = none := by
    rw [hat, htext]
    rfl
  have hlet := statementRule_of_let (letDeclaration_of_expression (solid_print h inner [';']) ho)
  rw [← htext] at hlet
  obtain ⟨p, hp, hbody⟩ := Program.exists_of_statement hnull hsolid hne hline rfl hlet
  refine ⟨p, hp, ?_⟩
  rw [Program.stripSpans, hbody]
  simp [Stmt.stripSpansAll_eq_map, Stmt.stripSpans, Declarator.stripSpans, Pattern.stripSpans,
    hstrip]

/-- An expression with operators of all sorts, a call and a negative number. -/
def mixedExpr : Expr :=
  .logical .and
    (.not (.call (.identifier "in$" .nowhere)
      [.identifier "a" .nowhere, .literal (.number ("-" ++ "07")) .nowhere,
        .literal (.string "=> /*") .nowhere] .nowhere) .nowhere)
    (.binary .instanceOf (.call (.identifier "_" .nowhere) [] .nowhere) (.literal .null .nowhere)
      .nowhere) .nowhere

theorem mixedExpr_parse_print :
    mixedExpr.Plain
      ∧ mixedExpr.print false
        = "( ! ( in$ ( a , ( -07 ) , \"=> /*\" ) ) ) && ( ( _ ( ) ) instanceof null )"
      ∧ ∃ p, Program.parse ("let v = " ++ mixedExpr.print false ++ ";") = .ok p
        ∧ p.stripSpans = ⟨[.declaration .let
          [⟨.identifier "v" .nowhere, some mixedExpr, .nowhere⟩] .nowhere], .nowhere⟩ := by
  have hvariable : Expr.Plain (.identifier "a" .nowhere) :=
    .identifier ⟨by decide, by decide⟩ (by decide)
  have hnumber : Expr.Plain (.literal (.number ("-" ++ "07")) .nowhere) :=
    .negative ⟨by decide, by decide⟩
  have hstring : Expr.Plain (.literal (.string "=> /*") .nowhere) :=
    .string (by simp [IsPlainText])
  have hplain : mixedExpr.Plain := by
    refine .logical (.not (.call ⟨by decide, by decide⟩ (by decide) ?_))
      (.binary (.call ⟨by decide, by decide⟩ (by decide) (by simp)) .null)
    exact List.forall_mem_cons.2 ⟨hvariable, List.forall_mem_cons.2 ⟨hnumber,
      List.forall_mem_singleton.2 hstring⟩⟩
  exact ⟨hplain, by decide +kernel, Program.parse_print hplain false⟩

/-- A string that holds a null character. -/
def nullExpr : Expr := .literal (.string "\x00") .nowhere

/-- A string with a null character is printed like any other, but it is not
read back. -/
theorem nullExpr_not_read :
    (∀ c ∈ "\x00".toList, c ≠ '"' ∧ c ≠ '\\' ∧ c ≠ '\n' ∧ c ≠ '\r')
      ∧ ¬∃ p, Program.parse ("let v = " ++ nullExpr.print false ++ ";") = .ok p := by
  refine ⟨by simp, ?_⟩
  rintro ⟨p, hp⟩
  exact (Program.parse_eq_ok_iff.1 hp).1 (by decide)

/-- The two names of the first meta property that is an argument. -/
def Program.metaNames (p : Program) : Option (String × String) :=
  p.body.findSome? fun
    | .expression (.call _ args _) _ => args.findSome? fun
      | .member (.metaProperty owner own _) _ _ => some (owner, own)
      | _ => none
    | _ => none

/-- **A comment in a meta property becomes a part of a name.** Both texts are
programs, but they are not the same. -/
theorem Program.parse_comment_inside :
    ∃ p q, Program.parse "f(import.meta.dirname)" = .ok p
      ∧ Program.parse "f(import /* c */ .meta.dirname)" = .ok q
      ∧ p.metaNames = some ("import", "meta") ∧ q.metaNames = some ("import /* c */", "meta")
      ∧ q.stripSpans ≠ p.stripSpans := by
  have hp : (Program.parse "f(import.meta.dirname)").toOption.map
      (fun p => (p.metaNames, p.stripSpans.metaNames))
      = some (some ("import", "meta"), some ("import", "meta")) := by decide +kernel
  have hq : (Program.parse "f(import /* c */ .meta.dirname)").toOption.map
      (fun q => (q.metaNames, q.stripSpans.metaNames))
      = some (some ("import /* c */", "meta"), some ("import /* c */", "meta")) := by decide +kernel
  obtain ⟨p, hp, hpnames⟩ := Program.exists_of_parse hp
  obtain ⟨q, hq, hqnames⟩ := Program.exists_of_parse hq
  refine ⟨p, q, hp, hq, congrArg Prod.fst hpnames, congrArg Prod.fst hqnames, fun heq => ?_⟩
  have hnames : q.stripSpans.metaNames = p.stripSpans.metaNames := congrArg _ heq
  rw [show p.stripSpans.metaNames = _ from congrArg Prod.snd hpnames,
    show q.stripSpans.metaNames = _ from congrArg Prod.snd hqnames] at hnames
  exact absurd hnames (by decide)

end ScriptToShell
