import ScriptToShell.Grammar.Readers
import ScriptToShell.Proofs.Reader
import ScriptToShell.Text.Lines

/-!
# Printed expressions

A printer for expressions that leaves nothing to the strength of operators:
every part that is made of others, and every negative number, stands in
parentheses, and there is one space between any two tokens (`Expr.print`). It
is meant for expressions made of names, literals, operators and calls of named
functions (`Expr.Plain`).

The characters of a printed expression are those of its parts with a few
between them, one equation for each sort of expression
(`Expr.Plain.toList_print_joined` and its like).

A name, an integer and a string are read as they are printed, whatever stands
behind them, if only a space or semicolon comes first (`Scan.name_append`,
`Scan.number?_append`, `Scan.string_append`). A name or an integer would go on
otherwise.
-/

namespace ScriptToShell

/-! ## The printer -/

/-- The token of a literal. -/
def Literal.token : Literal → String
  | .string value => "\"" ++ value ++ "\""
  | value => value.text

/-- Whether a literal is a number with a sign. -/
def Literal.isNegative : Literal → Bool
  | .number text => text.toList.head? = some '-'
  | _ => false

/-- Tokens in parentheses, or as they are. -/
def enclose (closed : Bool) (tokens : List String) : List String :=
  if closed then "(" :: tokens ++ [")"] else tokens

mutual

/-- **The tokens of an expression**: as a part of another one, or as a whole. -/
def Expr.tokens (inner : Bool) : Expr → List String
  | .identifier name _ => [name]
  | .literal value _ => enclose (inner && value.isNegative) [value.token]
  | .binary op left right _ => enclose inner (left.tokens true ++ op.token :: right.tokens true)
  | .logical op left right _ => enclose inner (left.tokens true ++ op.token :: right.tokens true)
  | .not argument _ => enclose inner ("!" :: argument.tokens true)
  | .call callee arguments _ =>
    enclose inner (callee.tokens true ++ "(" :: (Expr.argumentTokens arguments ++ [")"]))
  | _ => []

/-- The tokens of the arguments of a call. -/
def Expr.argumentTokens : List Expr → List String
  | [] => []
  | [e] => e.tokens true
  | e :: f :: es => e.tokens true ++ "," :: Expr.argumentTokens (f :: es)

end

/-- **An expression as a text**, with a space between any two tokens. -/
def Expr.print (inner : Bool) (e : Expr) : String := Text.joinWith " " (e.tokens inner)

/-! ## Plain expressions -/

/-- The words an expression takes for something else than a variable. All of
them are keywords. -/
def operandWords : List String :=
  ["true", "false", "null", "this", "super", "function", "class", "new", "typeof", "void", "delete",
   "await", "yield", "import", "async"]

/-- A letter, a digit, `_` or `$`. -/
def isWordChar (c : Char) : Bool := c.isAlphanum || c = '_' || c = '$'

/-- **A plain name**: a word that does not start with a digit. -/
structure IsPlainName (text : String) : Prop where
  /-- All characters may stand in a word. -/
  chars : text.toList.all isWordChar
  /-- There is a first character, which is no digit. -/
  start : text.toList.head?.any (!·.isDigit)

theorem IsPlainName.exists_cons {text : String} (h : IsPlainName text) :
    ∃ c cs, text.toList = c :: cs ∧ isWordChar c ∧ c.isDigit = false := by
  have hchars := List.all_eq_true.1 h.chars
  have hstart := h.start
  cases htext : text.toList with
  | nil =>
    rw [htext] at hstart
    cases hstart
  | cons c cs =>
    rw [htext] at hchars hstart
    exact ⟨c, cs, rfl, hchars c List.mem_cons_self, by simpa using hstart⟩

theorem IsPlainName.null_not_mem {name : String} (h : IsPlainName name) : '\x00' ∉ name.toList :=
  fun hmem => absurd (List.all_eq_true.1 h.chars _ hmem) (by decide)

/-- **A decimal integer** without a sign. -/
structure IsDigits (text : String) : Prop where
  /-- All characters are digits. -/
  chars : text.toList.all Char.isDigit
  /-- There is a digit. -/
  ne : text ≠ ""

theorem IsDigits.exists_cons {text : String} (h : IsDigits text) :
    ∃ c cs, text.toList = c :: cs ∧ c.isDigit := by
  have hchars := List.all_eq_true.1 h.chars
  have hne : text.toList ≠ [] := by simpa using h.ne
  obtain ⟨c, cs, hcs⟩ := List.exists_cons_of_ne_nil hne
  exact ⟨c, cs, hcs, hchars c (by simp [hcs])⟩

theorem IsDigits.isNegative {text : String} (h : IsDigits text) :
    (Literal.number text).isNegative = false := by
  obtain ⟨c, cs, htext, hc⟩ := h.exists_cons
  have hne : c ≠ '-' := by
    rintro rfl
    cases hc
  simp [Literal.isNegative, htext, hne]

theorem IsDigits.null_not_mem {text : String} (h : IsDigits text) : '\x00' ∉ text.toList :=
  fun hmem => absurd (List.all_eq_true.1 h.chars _ hmem) (by decide)

/-- A text that a string may hold as it is written. -/
def IsPlainText (value : String) : Prop :=
  ∀ c ∈ value.toList, c ≠ '"' ∧ c ≠ '\\' ∧ c ≠ '\n' ∧ c ≠ '\r' ∧ c ≠ '\x00'

/-- **Plain expressions**: made of variables, integers, strings, truth values
and `null` by operators and by calls of named functions. -/
inductive Expr.Plain : Expr → Prop
  | identifier {name span} (hword : IsPlainName name) (hfree : name ∉ operandWords) :
      Plain (.identifier name span)
  | number {text span} (h : IsDigits text) : Plain (.literal (.number text) span)
  | negative {text span} (h : IsDigits text) : Plain (.literal (.number ("-" ++ text)) span)
  | boolean {value span} : Plain (.literal (.boolean value) span)
  | null {span} : Plain (.literal .null span)
  | string {value span} (h : IsPlainText value) : Plain (.literal (.string value) span)
  | binary {op left right span} (hleft : left.Plain) (hright : right.Plain) :
      Plain (.binary op left right span)
  | logical {op left right span} (hleft : left.Plain) (hright : right.Plain) :
      Plain (.logical op left right span)
  | not {argument span} (h : argument.Plain) : Plain (.not argument span)
  | call {name arguments at_ span} (hword : IsPlainName name) (hfree : name ∉ operandWords)
      (h : ∀ e ∈ arguments, e.Plain) : Plain (.call (.identifier name at_) arguments span)

/-! ## The characters of a printed expression -/

/-- Tokens with a space before each. -/
def spaced (tokens : List String) : List Char := tokens.flatMap fun t => ' ' :: t.toList

@[simp] theorem spaced_nil : spaced [] = [] := rfl

@[simp] theorem spaced_cons (t : String) (ts : List String) :
    spaced (t :: ts) = ' ' :: (t.toList ++ spaced ts) := rfl

@[simp] theorem spaced_append (ts us : List String) : spaced (ts ++ us) = spaced ts ++ spaced us :=
  List.flatMap_append

theorem toList_joinWith (t : String) (ts : List String) :
    (Text.joinWith " " (t :: ts)).toList = t.toList ++ spaced ts := by
  induction ts generalizing t with
  | nil => simp [Text.joinWith]
  | cons u us ih => simp [Text.joinWith, ih]

namespace Expr

theorem toList_print {e : Expr} {inner : Bool} {t : String} {ts : List String}
    (h : e.tokens inner = t :: ts) : (e.print inner).toList = t.toList ++ spaced ts := by
  rw [print, h, toList_joinWith]

theorem Plain.tokens_ne_nil {e : Expr} (h : e.Plain) (inner : Bool) : e.tokens inner ≠ [] := by
  cases h <;> cases inner <;> simp [tokens, enclose] <;> split <;> simp

/-- The tokens of a printed expression, with a space before each. -/
theorem Plain.spaced_tokens {e : Expr} (h : e.Plain) (inner : Bool) :
    spaced (e.tokens inner) = ' ' :: (e.print inner).toList := by
  obtain ⟨t, ts, hts⟩ := List.exists_cons_of_ne_nil (h.tokens_ne_nil inner)
  rw [toList_print hts, hts, spaced_cons]

theorem toList_print_literal {inner : Bool} {value : Literal}
    (h : inner = false ∨ value.isNegative = false) (span : Span) :
    (print inner (.literal value span)).toList = value.token.toList := by
  have hclosed : (inner && value.isNegative) = false := by
    obtain rfl | h := h
    · rfl
    · rw [h, Bool.and_false]
  have htokens : tokens inner (.literal value span) = [value.token] := by
    rw [tokens, hclosed]
    rfl
  rw [toList_print htokens, spaced_nil, List.append_nil]

theorem tokens_negative (text : String) (span : Span) :
    tokens true (.literal (.number ("-" ++ text)) span)
      = enclose true (tokens false (.literal (.number ("-" ++ text)) span)) := by
  have hnegative : (Literal.number ("-" ++ text)).isNegative = true := by simp [Literal.isNegative]
  rw [tokens, hnegative]
  rfl

/-- An expression that stands in parentheses as a part of another one. -/
theorem Plain.toList_print_enclosed {e : Expr} (h : e.Plain)
    (htokens : e.tokens true = enclose true (e.tokens false)) :
    (e.print true).toList = '(' :: ' ' :: ((e.print false).toList ++ [' ', ')']) := by
  have hcons : e.tokens true = "(" :: (e.tokens false ++ [")"]) := htokens
  rw [toList_print hcons, spaced_append, h.spaced_tokens]
  rfl

/-- Two parts with an operator between them. -/
theorem Plain.toList_print_joined {e left right : Expr} {token : String} (hleft : left.Plain)
    (hright : right.Plain)
    (htokens : e.tokens false = left.tokens true ++ token :: right.tokens true) :
    (e.print false).toList
      = (left.print true).toList ++ ' ' :: (token.toList ++ ' ' :: (right.print true).toList) := by
  obtain ⟨t, ts, hts⟩ := List.exists_cons_of_ne_nil (hleft.tokens_ne_nil true)
  rw [hts, List.cons_append] at htokens
  rw [toList_print htokens, toList_print hts, spaced_append, spaced_cons, hright.spaced_tokens,
    List.append_assoc]

theorem Plain.toList_print_not {e : Expr} (h : e.Plain) (span : Span) :
    (print false (.not e span)).toList = '!' :: ' ' :: (e.print true).toList := by
  have htokens : tokens false (.not e span) = "!" :: e.tokens true := rfl
  rw [toList_print htokens, h.spaced_tokens]
  rfl

theorem toList_print_call (name : String) (at_ : Span) (arguments : List Expr) (span : Span) :
    (print false (.call (.identifier name at_) arguments span)).toList
      = name.toList ++ ' ' :: '(' :: (spaced (argumentTokens arguments) ++ [' ', ')']) := by
  have htokens : tokens false (.call (.identifier name at_) arguments span)
      = name :: "(" :: (argumentTokens arguments ++ [")"]) := rfl
  rw [toList_print htokens, spaced_cons, spaced_append]
  rfl

/-- The arguments behind the first one. -/
def moreArguments (es : List Expr) : List Char :=
  es.flatMap fun e => ' ' :: ',' :: ' ' :: (e.print true).toList

theorem length_le_moreArguments (es : List Expr) : es.length ≤ (moreArguments es).length := by
  induction es with
  | nil => exact Nat.le_refl 0
  | cons e es ih =>
    simp only [moreArguments, List.flatMap_cons, List.length_append, List.length_cons] at ih ⊢
    omega

theorem spaced_argumentTokens {e : Expr} {es : List Expr} (h : ∀ x ∈ e :: es, x.Plain) :
    spaced (argumentTokens (e :: es)) = ' ' :: ((e.print true).toList ++ moreArguments es) := by
  induction es generalizing e with
  | nil =>
    rw [argumentTokens, (h e List.mem_cons_self).spaced_tokens]
    simp [moreArguments]
  | cons f es ih =>
    rw [argumentTokens, spaced_append, spaced_cons, (h e List.mem_cons_self).spaced_tokens,
      ih fun x hx => h x (List.mem_cons_of_mem e hx)]
    simp [moreArguments]

/-- An argument is not longer than all of them. -/
theorem length_print_le {e : Expr} {es : List Expr} (hplain : ∀ x ∈ es, x.Plain) (he : e ∈ es) :
    (e.print true).toList.length ≤ (spaced (argumentTokens es)).length := by
  induction es with
  | nil => cases he
  | cons f es ih =>
    have hes := List.forall_mem_cons.1 hplain
    cases es with
    | nil =>
      rw [List.mem_singleton.1 he, argumentTokens, hes.1.spaced_tokens]
      exact Nat.le_succ _
    | cons g es =>
      rw [argumentTokens, spaced_append, List.length_append, spaced_cons, List.length_cons,
        List.length_append]
      obtain rfl | he := List.mem_cons.1 he
      · rw [hes.1.spaced_tokens, List.length_cons]
        omega
      · have hle := ih hes.2 he
        omega

/-! ### Null characters -/

theorem forall_mem_argumentTokens {P : String → Prop} (hcomma : P ",") {es : List Expr}
    (h : ∀ e ∈ es, ∀ t ∈ e.tokens true, P t) : ∀ t ∈ argumentTokens es, P t := by
  induction es with
  | nil => exact List.forall_mem_nil _
  | cons e es ih =>
    obtain ⟨he, hes⟩ := List.forall_mem_cons.1 h
    cases es with
    | nil => exact he
    | cons f es => exact List.forall_mem_append.2 ⟨he, List.forall_mem_cons.2 ⟨hcomma, ih hes⟩⟩

theorem forall_mem_enclose {P : String → Prop} {closed : Bool} {ts : List String} (hopen : P "(")
    (hclose : P ")") (h : ∀ t ∈ ts, P t) : ∀ t ∈ enclose closed ts, P t := by
  unfold enclose
  split
  · exact List.forall_mem_append.2 ⟨List.forall_mem_cons.2 ⟨hopen, h⟩,
      List.forall_mem_singleton.2 hclose⟩
  · exact h

/-- No token of a plain expression holds a null character. -/
theorem Plain.null_not_mem_tokens {e : Expr} (h : e.Plain) (inner : Bool) :
    ∀ t ∈ e.tokens inner, '\x00' ∉ t.toList := by
  have henclose : ∀ {closed : Bool} {ts : List String}, (∀ t ∈ ts, '\x00' ∉ t.toList) →
      ∀ t ∈ enclose closed ts, '\x00' ∉ t.toList :=
    fun hts => forall_mem_enclose (by decide) (by decide) hts
  induction h generalizing inner with
  | identifier hword => exact List.forall_mem_singleton.2 hword.null_not_mem
  | number hdigits => exact henclose (List.forall_mem_singleton.2 hdigits.null_not_mem)
  | @negative text _ hdigits =>
    refine henclose (List.forall_mem_singleton.2 ?_)
    simpa [Literal.token, Literal.text] using hdigits.null_not_mem
  | @boolean value =>
    refine henclose (List.forall_mem_singleton.2 ?_)
    cases value <;> decide
  | null => exact henclose (List.forall_mem_singleton.2 (by decide))
  | @string value _ hvalue =>
    refine henclose (List.forall_mem_singleton.2 ?_)
    have hnull : '\x00' ∉ value.toList := fun hmem => (hvalue _ hmem).2.2.2.2 rfl
    simpa [Literal.token] using hnull
  | @binary op _ _ _ _ _ ihl ihr =>
    refine henclose (List.forall_mem_append.2 ⟨ihl true, List.forall_mem_cons.2 ⟨?_, ihr true⟩⟩)
    cases op <;> decide
  | @logical op _ _ _ _ _ ihl ihr =>
    refine henclose (List.forall_mem_append.2 ⟨ihl true, List.forall_mem_cons.2 ⟨?_, ihr true⟩⟩)
    cases op <;> decide
  | not _ ih => exact henclose (List.forall_mem_cons.2 ⟨by decide, ih true⟩)
  | @call name arguments _ _ hword _ _ ih =>
    have harguments : ∀ t ∈ argumentTokens arguments, '\x00' ∉ t.toList :=
      forall_mem_argumentTokens (by decide) fun e he => ih e he true
    exact henclose (List.forall_mem_append.2 ⟨List.forall_mem_singleton.2 hword.null_not_mem,
      List.forall_mem_cons.2 ⟨by decide, List.forall_mem_append.2
        ⟨harguments, List.forall_mem_singleton.2 (by decide)⟩⟩⟩)

/-- No plain expression is printed with a null character. -/
theorem Plain.null_not_mem_print {e : Expr} (h : e.Plain) (inner : Bool) :
    '\x00' ∉ (e.print inner).toList := by
  have hspaced : '\x00' ∉ spaced (e.tokens inner) := by
    unfold spaced
    rw [List.mem_flatMap]
    rintro ⟨t, ht, hmem⟩
    exact h.null_not_mem_tokens inner t ht (List.mem_of_ne_of_mem (by decide) hmem)
  rw [h.spaced_tokens] at hspaced
  exact fun hmem => hspaced (List.mem_cons_of_mem _ hmem)

end Expr

end ScriptToShell

namespace ScriptToShell.Scan

/-! ## Tokens -/

/-- What holds of all characters of ASCII can be computed. -/
theorem forall_ascii {P : Char → Prop} [DecidablePred P]
    (h : ∀ n : Fin 128, P (Char.ofNat n)) {c : Char} (hc : c.toNat < 128) : P c := by
  have hp := h ⟨c.toNat, hc⟩
  rwa [Char.ofNat_toNat] at hp

theorem isWordChar_ascii {c : Char} (h : isWordChar c) : c.toNat < 128 := by
  unfold isWordChar Char.isAlphanum Char.isAlpha Char.isUpper Char.isLower Char.isDigit at h
  simp only [Bool.or_eq_true, Bool.and_eq_true, decide_eq_true_eq, UInt32.le_iff_toNat_le,
    ge_iff_le] at h
  obtain (h | rfl) | rfl := h
  · change (((65 ≤ c.toNat ∧ c.toNat ≤ 90) ∨ (97 ≤ c.toNat ∧ c.toNat ≤ 122))
      ∨ (48 ≤ c.toNat ∧ c.toNat ≤ 57)) at h
    omega
  · decide
  · decide

theorem isWordChar_of_isDigit {c : Char} (h : c.isDigit) : isWordChar c := by
  simp [isWordChar, Char.isAlphanum, h]

theorem ne_of_isWordChar {c d : Char} (h : isWordChar c) (hd : isWordChar d = false) : c ≠ d := by
  rintro rfl
  rw [hd] at h
  cases h

theorem isNameChar_of_isWordChar {c : Char} (h : isWordChar c) : isNameChar c :=
  forall_ascii (P := fun c => isWordChar c → isNameChar c) (by decide) (isWordChar_ascii h) h

/-- Nothing is passed over before a character of a word. -/
theorem solid_of_isWordChar {c : Char} (h : isWordChar c) (cs : List Char) : Solid (c :: cs) := by
  have hspace : isSpace c = false := by
    have hname := isNameChar_of_isWordChar h
    simp only [isNameChar, Bool.and_eq_true, Bool.not_eq_true'] at hname
    exact hname.1.2
  exact solid_cons hspace (ne_of_isWordChar h rfl) (ne_of_isWordChar h rfl) (ne_of_isWordChar h rfl)

/-- Where a token ends that no punctuation ends: before a space or a
semicolon. -/
def Boundary (rest : List Char) : Prop := ∃ c cs, rest = c :: cs ∧ (c = ' ' ∨ c = ';')

section Boundary

variable {text : String} {rest : List Char} {pos : Nat}

theorem nameRest_append {cs : List Char} (hcs : ∀ c ∈ cs, isNameChar c) (hrest : Boundary rest)
    {limit : Nat} (h : cs.length ≤ limit) : nameRest limit (cs ++ rest) = cs.length := by
  induction cs generalizing limit with
  | nil =>
    obtain ⟨c, cs, rfl, rfl | rfl⟩ := hrest
    · cases limit <;> rfl
    · cases limit <;> rfl
  | cons c cs ih =>
    cases limit with
    | zero => cases h
    | succ limit =>
      have hc := hcs c List.mem_cons_self
      have htail := ih (fun d hd => hcs d (List.mem_cons_of_mem c hd)) (Nat.le_of_succ_le_succ h)
      simp [nameRest, nameChar?, hc, htail, Nat.add_comm]

/-- A word is a name. -/
theorem name?_append (h : IsPlainName text) (hrest : Boundary rest) :
    name? (text.toList ++ rest) = some text.toList.length := by
  have hchars := List.all_eq_true.1 h.chars
  obtain ⟨c, cs, htext, hc, hdigit⟩ := h.exists_cons
  rw [htext] at hchars ⊢
  have hstart : isNameStart c := by simp [isNameStart, isNameChar_of_isWordChar hc, hdigit]
  have hhead : nameChar? isNameStart (c :: (cs ++ rest)) = some 1 := by simp [nameChar?, hstart]
  have htail : nameRest (c :: (cs ++ rest)).length (cs ++ rest) = cs.length :=
    nameRest_append
      (fun d hd => isNameChar_of_isWordChar (hchars d (List.mem_cons_of_mem c hd))) hrest
      (by simp; omega)
  show (nameChar? isNameStart (c :: (cs ++ rest))).map _ = _
  rw [hhead]
  show some (1 + nameRest (c :: (cs ++ rest)).length (cs ++ rest)) = _
  rw [htail, List.length_cons, Nat.add_comm]

theorem headName?_append (h : IsPlainName text) (hrest : Boundary rest) :
    headName? (text.toList ++ rest) = some text := by
  simp [headName?, name?_append h hrest]

theorem name_append (h : IsPlainName text) (hrest : Boundary rest) :
    Reader.name ⟨pos, text.toList ++ rest⟩
      = some (text, ⟨pos + byteLength text.toList, rest⟩) := by
  simp [Reader.name, Reader.token_append (name?_append h hrest)]

/-! ### Integers -/

theorem headName?_of_isDigit {c : Char} (h : c.isDigit) (cs : List Char) :
    headName? (c :: cs) = none := by
  have hescape : c ≠ '\\' := ne_of_isWordChar (isWordChar_of_isDigit h) rfl
  have hnone : nameEscape? (c :: cs) = none := by
    unfold nameEscape?
    split
    · simp_all
    · simp_all
    · rfl
  simp [headName?, name?, nameChar?, isNameStart, h, hnone]

theorem moreDigits_append {cs : List Char} (hcs : ∀ c ∈ cs, c.isDigit) (hrest : Boundary rest) :
    moreDigits Char.isDigit (cs ++ rest) = cs.length := by
  induction cs with
  | nil =>
    obtain ⟨c, cs, rfl, rfl | rfl⟩ := hrest
    · cases cs <;> rfl
    · cases cs <;> rfl
  | cons c cs ih =>
    have hc := hcs c List.mem_cons_self
    have htail := ih fun d hd => hcs d (List.mem_cons_of_mem c hd)
    obtain ⟨d, ds, hds⟩ : ∃ d ds, cs ++ rest = d :: ds := by
      obtain ⟨r, rs, rfl, -⟩ := hrest
      cases cs with
      | nil => exact ⟨r, rs, rfl⟩
      | cons d ds => exact ⟨d, ds ++ r :: rs, rfl⟩
    rw [List.cons_append, hds, moreDigits, ← hds, htail]
    simp [hc]

/-- A character that ends a run of digits, or carries it on. -/
def AmongDigits (c : Char) : Prop := c.isDigit ∨ c = ' ' ∨ c = ';'

theorem AmongDigits.ne {c d : Char} (h : AmongDigits c) (hd : d.isDigit = false)
    (hspace : d ≠ ' ') (hsemicolon : d ≠ ';') : c ≠ d := by
  rintro rfl
  obtain hdigit | rfl | rfl := h
  · rw [hd] at hdigit
    cases hdigit
  · exact hspace rfl
  · exact hsemicolon rfl

theorem exists_amongDigits {cs : List Char} (hcs : ∀ c ∈ cs, c.isDigit) (hrest : Boundary rest) :
    ∃ d ds, cs ++ rest = d :: ds ∧ AmongDigits d := by
  cases cs with
  | nil =>
    obtain ⟨c, cs, rfl, hc⟩ := hrest
    exact ⟨c, cs, rfl, .inr hc⟩
  | cons c cs => exact ⟨c, cs ++ rest, rfl, .inl (hcs c List.mem_cons_self)⟩

section Digits

variable {d : Char} {ds : List Char} (hd : AmongDigits d)
include hd

theorem point?_of_digits : point? (d :: ds) = none := by
  have hne := hd.ne (d := '.') rfl (by decide) (by decide)
  unfold point?
  split
  · simp_all
  · rfl

theorem bigSuffix?_of_digits : bigSuffix? (d :: ds) = none := by
  have hne := hd.ne (d := 'n') rfl (by decide) (by decide)
  unfold bigSuffix?
  split
  · simp_all
  · rfl

theorem exponent?_of_digits : exponent? (d :: ds) = none := by
  have hlower := hd.ne (d := 'e') rfl (by decide) (by decide)
  have hupper := hd.ne (d := 'E') rfl (by decide) (by decide)
  cases ds with
  | nil => rfl
  | cons e es => simp [exponent?, hlower, hupper]

omit hd in
theorem based?_of_digits (c : Char) {lower upper : Char} (hlower : d ≠ lower) (hupper : d ≠ upper)
    (isDigit : Char → Bool) : based? lower upper isDigit (c :: d :: ds) = none := by
  unfold based?
  split
  · simp_all
  · rfl

end Digits

section Integer

variable {c : Char} {cs : List Char} (hc : c.isDigit) (hcs : ∀ c ∈ cs, c.isDigit)
  (hrest : Boundary rest)
include hc hcs hrest

theorem digits?_append : digits? Char.isDigit (c :: (cs ++ rest)) = some (c :: cs).length := by
  simp [digits?, hc, moreDigits_append hcs hrest]

/-- The whole part of an integer ends where digits go on, or end. -/
theorem wholePart?_append : ∃ n d ds, wholePart? (c :: (cs ++ rest)) = some n
    ∧ (c :: (cs ++ rest)).drop n = d :: ds ∧ AmongDigits d := by
  obtain ⟨r, rs, hr, hspace⟩ := id hrest
  have hramong : AmongDigits r := .inr hspace
  obtain ⟨d, ds, hds, hdamong⟩ := exists_amongDigits hcs hrest
  by_cases hzero : c = '0'
  · subst hzero
    refine ⟨if d.isDigit ∧ d ≠ '0' then cs.length + 1 else 1, ?_⟩
    split
    case isTrue hdigit =>
      -- Behind a single zero the digits go on, so that there are more of them.
      obtain ⟨cs', rfl⟩ : ∃ cs', cs = d :: cs' := by
        cases cs with
        | nil =>
          obtain ⟨b, bs, rfl, rfl | rfl⟩ := hrest
          · cases hds
            cases hdigit.1
          · cases hds
            cases hdigit.1
        | cons e cs' =>
          cases hds
          exact ⟨cs', rfl⟩
      have hmore := moreDigits_append (fun e he => hcs e (List.mem_cons_of_mem d he)) hrest
      refine ⟨r, rs, ?_, by simpa using hr, hramong⟩
      simp [wholePart?, hdigit, hmore]
    case isFalse hdigit =>
      refine ⟨d, ds, ?_, by simpa using hds, hdamong⟩
      rw [hds]
      simp only [wholePart?, hdigit, ↓reduceIte]
  · have hmore := moreDigits_append hcs hrest
    refine ⟨cs.length + 1, r, rs, ?_, ?_, hramong⟩
    · unfold wholePart?
      split
      · simp_all
      · simp_all
      · simp_all
    · simpa using hr

theorem number?_cons_append : number? (c :: (cs ++ rest)) = some (c :: cs).length := by
  obtain ⟨n, w, ws, hwhole, hdrop, hw⟩ := wholePart?_append hc hcs hrest
  obtain ⟨d, ds, hds, hd⟩ := exists_amongDigits hcs hrest
  have hdigits := digits?_append hc hcs hrest
  have hbased : ∀ {lower upper : Char} (isDigit : Char → Bool), d ≠ lower → d ≠ upper →
      based? lower upper isDigit (c :: (cs ++ rest)) = none := fun isDigit hlower hupper => by
    rw [hds]
    exact based?_of_digits c hlower hupper isDigit
  have hx := hbased isHexDigit (hd.ne (d := 'x') rfl (by decide) (by decide))
    (hd.ne (d := 'X') rfl (by decide) (by decide))
  have hb := hbased isBinaryDigit (hd.ne (d := 'b') rfl (by decide) (by decide))
    (hd.ne (d := 'B') rfl (by decide) (by decide))
  have ho := hbased isOctalDigit (hd.ne (d := 'o') rfl (by decide) (by decide))
    (hd.ne (d := 'O') rfl (by decide) (by decide))
  have hpoint : point? (c :: (cs ++ rest)) = none := point?_of_digits (.inl hc)
  have hsuffix : bigSuffix? rest = none := by
    obtain ⟨r, rs, rfl, hr⟩ := hrest
    exact bigSuffix?_of_digits (.inr hr)
  have hwholePoint : point? (w :: ws) = none := point?_of_digits hw
  have hwholeExponent : exponent? (w :: ws) = none := exponent?_of_digits hw
  simp [number?, numberForms, thenOption, thenToken, hx, hb, ho, hdigits, hpoint, hsuffix,
    hwhole, hdrop, hwholePoint, hwholeExponent]

end Integer

theorem number?_append (h : IsDigits text) (hrest : Boundary rest) :
    number? (text.toList ++ rest) = some text.toList.length := by
  have hchars := List.all_eq_true.1 h.chars
  obtain ⟨c, cs, htext, hc⟩ := h.exists_cons
  rw [htext] at hchars ⊢
  exact number?_cons_append hc (fun d hd => hchars d (List.mem_cons_of_mem c hd)) hrest

/-! ### Strings -/

theorem stringFrom_append {value : List Char}
    (h : ∀ c ∈ value, c ≠ '"' ∧ c ≠ '\\' ∧ c ≠ '\n' ∧ c ≠ '\r' ∧ c ≠ '\x00') {limit : Nat}
    (hlimit : value.length < limit) :
    stringFrom '"' limit (value ++ '"' :: rest) = some (value, value.length + 1) := by
  induction value generalizing limit with
  | nil =>
    cases limit with
    | zero => cases hlimit
    | succ limit => rfl
  | cons c cs ih =>
    cases limit with
    | zero => cases hlimit
    | succ limit =>
      obtain ⟨hquote, hslash, hfeed, hreturn, -⟩ := h c List.mem_cons_self
      have htail := ih (fun d hd => h d (List.mem_cons_of_mem c hd)) (Nat.lt_of_succ_lt_succ hlimit)
      simp [stringFrom, hquote, hslash, hfeed, hreturn, htail]

theorem string_append {value : String} (h : IsPlainText value) :
    Reader.string ⟨pos, ("\"" ++ value ++ "\"").toList ++ rest⟩
      = some (value, ⟨pos + byteLength ("\"" ++ value ++ "\"").toList, rest⟩) := by
  have htext : ("\"" ++ value ++ "\"").toList ++ rest = '"' :: (value.toList ++ '"' :: rest) := by
    simp
  have hlength : ("\"" ++ value ++ "\"").toList.length = value.toList.length + 1 + 1 := by simp
  have hfrom : stringFrom '"' ((value.toList ++ '"' :: rest).length + 1)
      (value.toList ++ '"' :: rest) = some (value.toList, value.toList.length + 1) :=
    stringFrom_append h (by rw [List.length_append, List.length_cons]; omega)
  have hstring : string? (("\"" ++ value ++ "\"").toList ++ rest)
      = some (value.toList, ("\"" ++ value ++ "\"").toList.length) := by
    rw [htext, hlength]
    show (stringFrom '"' _ (value.toList ++ '"' :: rest)).map _ = _
    rw [hfrom]
    rfl
  simp only [Reader.string, Reader.bind_apply, Reader.ahead_apply, Option.bind_some, hstring,
    Reader.modify_apply, Reader.pure_apply, Cursor.skip_append, String.ofList_toList]

end Boundary

end ScriptToShell.Scan
