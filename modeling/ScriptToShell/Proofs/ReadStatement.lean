import ScriptToShell.Grammar.Program
import ScriptToShell.Proofs.ReadExpression

/-!
# Statements that are read in tandem

The rules for statements are followed as those for expressions are. With them
every rule of the grammar is in tandem with itself, and since each rule uses
the readers for what it contains nearer to the end of the text, readers for
any two depths agree as far as the smaller of them reaches
(`readers_agree`).
-/

namespace ScriptToShell.Grammar

open Scan

variable {text : List Char} {shift depth i start : Nat} {R R' : Readers}

/-! ## Declarations -/

/-- A statement that is made at the place of the reader. -/
theorem tandem_statementFrom {first count : Nat} {make make' : Span → Stmt}
    (hcount : first + count ≤ i)
    (h : Twin text shift start (make (spanAt text start i))
      (make' ((spanAt text start i).moved shift)) i) :
    Tandem text shift i (statementFrom (offsetAt text start) make)
      (statementFrom (offsetAt text start + shift) make')
      (Past first count (Twin text shift start)) :=
  tandem_spanFrom (.pure ⟨hcount, h⟩)

theorem tandem_unsupportedStatement {first count : Nat} (kind : NodeKind)
    (hcount : first + count ≤ i) (hstart : start ≤ i) :
    Tandem text shift i (unsupportedStatement kind (offsetAt text start))
      (unsupportedStatement kind (offsetAt text start + shift))
      (Past first count (Twin text shift start)) :=
  tandem_statementFrom hcount ((Stmt.isLeaf_unsupported kind).twin hstart)

section Rules

variable (hR : R.Agree text shift depth R')
include hR

theorem tandem_expressionStatement (hi : text.length ≤ i + depth) :
    Tandem text shift i (expressionStatement R) (expressionStatement R')
      (Past i 1 (Twin text shift i)) := by
  refine .pos ((tandem_expressions hR true hi).bind fun value value' j ⟨hj, hvalue⟩ => ?_)
  refine (tandem_semicolon false).next fun _ l hl => tandem_statementFrom (by omega) ?_
  refine .of_row (.expression hvalue.alike rfl) rfl ?_
  exact .single (hvalue.between.widen (Nat.le_refl i) hl)

theorem tandem_labeled (hi : text.length ≤ i + depth) :
    Tandem text shift i (labeled R) (labeled R') (Past i 1 (Twin text shift i)) := by
  refine .pos (tandem_name.next fun word j hj => (Tandem.require _).peek fun _ => ?_)
  refine (tandem_symbol ":" (by decide)).next fun _ l hl => tandem_gap.next fun _ m hm => ?_
  refine (hR.statement m (by omega)).bind fun _ _ n ⟨hn, _⟩ => ?_
  exact tandem_unsupportedStatement _ (by omega) (by omega)

/-- One binding. -/
theorem tandem_declarator (hi : text.length ≤ i + depth) :
    Tandem text shift i (declarator R) (declarator R') (Past i 1 (Twin text shift i)) := by
  refine .pos ((tandem_bindingTarget hR (by omega)).bind fun target target' j ⟨hj, htarget⟩ => ?_)
  refine (tandem_atSupplied true).peek fun ended => ?_
  refine .optionUnless (fun _ => tandem_initializer hR true (by omega)) fun init init' l hinit => ?_
  refine tandem_spanFrom ?_
  cases hinit with
  | none =>
    refine .pure ⟨hj, .of_row ⟨htarget.alike, .none, rfl⟩ rfl ?_⟩
    exact .single htarget.between
  | some h =>
    have hl := h.1
    refine .pure ⟨by omega, .of_row ⟨htarget.alike, .some h.2.alike, rfl⟩ rfl ?_⟩
    exact .pair htarget.between (Nat.le_refl j) h.2.between

/-- Bindings behind a first one. -/
theorem tandem_declaratorsUpTo (limit : Nat)
    {d d' : Declarator} (hd : Twin text shift start d d' i) (hi : text.length ≤ i + depth) :
    Tandem text shift i (declaratorsUpTo R limit d) (declaratorsUpTo R' limit d')
      (Past i 0 (TwinList text shift start)) := by
  induction limit generalizing i start d d' with
  | zero => exact .pure ⟨Nat.le_refl i, .single hd⟩
  | succ limit ih =>
    have hmore : Tandem text shift i
        (do
          symbol ","
          Reader.gap
          let next ← declarator R
          let more ← declaratorsUpTo R limit next
          return d :: more)
        (do
          symbol ","
          Reader.gap
          let next ← declarator R'
          let more ← declaratorsUpTo R' limit next
          return d' :: more) (Past i 0 (TwinList text shift start)) := by
      refine (tandem_symbol "," (by decide)).next fun _ j hj => tandem_gap.next fun _ l hl => ?_
      refine (tandem_declarator hR (by omega)).bind fun next next' m ⟨hm, hnext⟩ => ?_
      refine (ih hnext (by omega)).bind fun more more' n ⟨hn, htwins⟩ => .pure ⟨by omega, ?_⟩
      exact .cons hd (htwins.widen (by omega) (Nat.le_refl n))
    refine .orElse ?_ (.pure ⟨Nat.le_refl i, .single hd⟩)
    have halike : d.Alike (.moved shift) d' := hd.alike
    rw [isNone_eq_of_rel halike.init]
    refine .ite (fun _ => ?_) fun _ => hmore
    exact (tandem_atSupplied true).peek fun _ => (Tandem.require _).peek fun _ => hmore

omit hR in
/-- Whether the last of some bindings has no initial value is the same in both
readings. -/
theorem lastIsBare_eq_of_alike {r : Placing} {ds ds' : List Declarator}
    (h : List.Forall₂ (Declarator.Alike r) ds ds') :
    ds'.getLast?.any (·.init.isNone) = ds.getLast?.any (·.init.isNone) := by
  have hreverse := List.rel_reverse h
  rw [List.getLast?_eq_head?_reverse, List.getLast?_eq_head?_reverse]
  generalize ds.reverse = es at hreverse ⊢
  generalize ds'.reverse = es' at hreverse ⊢
  cases hreverse with
  | nil => rfl
  | cons hd _ => exact isNone_eq_of_rel hd.init

theorem tandem_declarationRest (kind : DeclKind)
    (hstart : start + 1 ≤ i) (hi : text.length ≤ i + depth) :
    Tandem text shift i (declarationRest R kind (offsetAt text start))
      (declarationRest R' kind (offsetAt text start + shift))
      (Past start 1 (Twin text shift start)) := by
  refine (tandem_declarator hR hi).bind fun first first' j ⟨hj, hfirst⟩ => .ahead ?_
  refine (tandem_declaratorsUpTo hR _ hfirst (by omega)).bind fun all all' l ⟨hl, hall⟩ => ?_
  rw [lastIsBare_eq_of_alike hall.alike]
  refine (tandem_semicolon _).next fun _ m hm => tandem_statementFrom (by omega) ?_
  exact .of_row (.declaration hall.alike rfl) rfl (hall.row.widen (by omega) (by omega))

theorem tandem_declaration (kind : DeclKind) (word : String)
    (hi : text.length ≤ i + depth) :
    Tandem text shift i (declaration R kind word) (declaration R' kind word)
      (Past i 1 (Twin text shift i)) :=
  .pos ((tandem_keyword word).next fun _ _ hj => tandem_gap.next fun _ _ hl =>
    tandem_declarationRest hR kind (by omega) (by omega))

theorem tandem_letDeclaration (hi : text.length ≤ i + depth) :
    Tandem text shift i (letDeclaration R) (letDeclaration R') (Past i 1 (Twin text shift i)) := by
  refine .pos ((tandem_keyword "let").next fun _ j hj => (tandem_atSupplied false).peek fun b => ?_)
  refine (Tandem.require _).peek fun _ => tandem_trivia.next fun _ l hl => .ahead ?_
  split
  · exact .failure
  · exact .failure
  · exact tandem_declarationRest hR .let (by omega) (by omega)

omit hR in
theorem tandem_seesNamedFunction :
    Tandem text shift i seesNamedFunction seesNamedFunction (Stays i) := by
  refine Tandem.sees (P := Same i 1) ?_
  refine (tandem_keyword "function").next fun _ j hj => tandem_gap.next fun _ l hl => ?_
  refine (tandem_literal "*" (by decide)).option_same.next fun _ m hm =>
    tandem_gap.next fun _ n hn => ?_
  exact tandem_name.since (by omega)

theorem tandem_namedFunction (hstart : start ≤ i)
    (hi : text.length ≤ i + depth) :
    Tandem text shift i (namedFunction R (offsetAt text start))
      (namedFunction R' (offsetAt text start + shift)) (Past start 1 (Twin text shift start)) := by
  refine (tandem_keyword "function").next fun _ j hj => tandem_gap.next fun _ l hl => ?_
  refine (tandem_literal "*" (by decide)).option_same.next fun star m hm =>
    tandem_gap.next fun _ n hn => ?_
  refine tandem_name.next fun name p hp => ?_
  refine (tandem_functionRest hR false (by omega)).bind fun x x' q ⟨hq, hx⟩ => ?_
  obtain ⟨params, body⟩ := x
  obtain ⟨params', body'⟩ := x'
  obtain ⟨u, hparams, hbody⟩ := hx
  refine .ite (fun _ => tandem_unsupportedStatement _ (by omega) (by omega)) fun _ => ?_
  refine tandem_statementFrom (by omega) ?_
  refine .of_row (.function hparams.alike hbody.alike rfl) rfl ?_
  exact (hparams.row.append hbody.row).widen (by omega) (Nat.le_refl q)

theorem tandem_asyncFunction (hi : text.length ≤ i + depth) :
    Tandem text shift i (asyncFunction R) (asyncFunction R') (Past i 1 (Twin text shift i)) := by
  refine .pos ((tandem_keyword "async").next fun _ j hj =>
    (tandem_atSupplied false).peek fun b => ?_)
  refine (Tandem.require _).peek fun _ => tandem_trivia.next fun _ l hl => ?_
  refine tandem_seesNamedFunction.peek fun b => (Tandem.require b).peek fun _ => ?_
  exact tandem_namedFunction hR (by omega) (by omega)

omit hR in
theorem tandem_seesNamedClass :
    Tandem text shift i seesNamedClass seesNamedClass (Stays i) := by
  refine Tandem.sees (P := Same i 1) ?_
  refine (tandem_keyword "class").next fun _ j hj => tandem_gap.next fun _ l hl => ?_
  exact .ahead ((Tandem.require _).peek fun _ => tandem_name.since (by omega))

theorem tandem_namedClass (hstart : start ≤ i)
    (hi : text.length ≤ i + depth) :
    Tandem text shift i (namedClass R (offsetAt text start))
      (namedClass R' (offsetAt text start + shift)) (Past start 1 (Twin text shift start)) := by
  refine (tandem_keyword "class").next fun _ j hj => ?_
  refine (tandem_classRest hR (by omega)).next fun _ l hl => ?_
  refine (tandem_optionalSemicolon false).next fun _ m hm => ?_
  exact tandem_unsupportedStatement _ (by omega) (by omega)

/-! ## Control flow -/

theorem tandem_testInParentheses (hi : text.length ≤ i + depth + 1) :
    Tandem text shift i (testInParentheses R) (testInParentheses R')
      (Past i 1 (Twin text shift i)) :=
  tandem_gap.next fun _ _ hj => ((tandem_parenthesized hR (by omega)).past (by omega)).mono
    fun _ _ _ h => ⟨h.1, h.2.widen hj (Nat.le_refl _)⟩

theorem tandem_nested (hi : text.length < i + depth) :
    Tandem text shift i (nested R) (nested R') (Past i 1 (Twin text shift i)) :=
  tandem_gap.next fun _ _ hj => ((hR.statement _ (by omega)).past (by omega)).mono
    fun _ _ _ h => ⟨h.1, h.2.widen hj (Nat.le_refl _)⟩

theorem tandem_alternate (hi : text.length < i + depth) :
    Tandem text shift i (alternate R) (alternate R') (Past i 1 (Twin text shift i)) := by
  refine tandem_marks.bind fun marks marks' j hmarks => ?_
  obtain ⟨rfl, hrow⟩ := hmarks
  have hj := hrow.le
  refine (hR.statement j (by omega)).bind fun s s' l ⟨hl, hs⟩ => ?_
  cases hrow with
  | nil => exact .pure ⟨by omega, hs.widen (by omega) (Nat.le_refl l)⟩
  | cons ha hab tail =>
    have htail := tail.le
    refine .pure ⟨by omega, ?_⟩
    exact ((Stmt.isLeaf_unsupported markKind).twin hab).widen (by omega) (by omega)

theorem tandem_branch (hi : text.length ≤ i + depth) :
    Tandem text shift i (branch R) (branch R') (Past i 1 (Twin text shift i)) := by
  refine .pos ((tandem_keyword "if").next fun _ j hj => ?_)
  refine (tandem_testInParentheses hR (by omega)).bind fun test test' l ⟨hl, htest⟩ => ?_
  refine (tandem_nested hR (by omega)).bind fun consequent consequent' m ⟨hm, hconsequent⟩ => ?_
  have hrow := Node.Row.pair htest.between (Nat.le_refl l) hconsequent.between
  have hother : Tandem text shift m (Reader.behind (nextKeyword "else") (alternate R))
      (Reader.behind (nextKeyword "else") (alternate R')) (Maybe m (Twin text shift m)) :=
    .behind (tandem_nextKeyword "else") fun n hn => (tandem_alternate hR (by omega)).mono
      fun _ _ _ h => h.2.widen (by omega) (Nat.le_refl _)
  refine hother.bind fun other other' n hmaybe => ?_
  cases hmaybe with
  | none =>
    refine tandem_statementFrom (by omega) ?_
    refine .of_row (.branch htest.alike hconsequent.alike .none rfl) rfl ?_
    exact hrow.widen (by omega) (Nat.le_refl m)
  | some h =>
    have hn := h.between.le
    refine tandem_statementFrom (by omega) ?_
    refine .of_row (.branch htest.alike hconsequent.alike (.some h.alike) rfl) rfl ?_
    exact (hrow.append (.single h.between)).widen (by omega) (Nat.le_refl n)

/-- The statements of a case. -/
theorem tandem_caseBody (hi : text.length < i + depth) :
    Tandem text shift i (caseBody R) (caseBody R') (TwinList text shift i) := by
  refine (Tandem.many (fun j hj => ?hround) ?hle).mono fun _ _ _ h => .of_rounds_single h
  case hround =>
    refine tandem_gap.next fun _ l hl => .ahead ?_
    split
    · exact .failure
    · exact .failure
    · exact (hR.statement l (by omega)).mono fun _ _ _ h => h.2.widen hl (Nat.le_refl _)
  case hle => exact fun _ _ _ _ h => h.between.le

theorem tandem_switchCase (hi : text.length ≤ i + depth) :
    Tandem text shift i (switchCase R) (switchCase R') (Past i 1 (Twin text shift i)) := by
  refine .pos (.orElse ?_ ?_)
  · refine (tandem_keyword "case").next fun _ j hj => tandem_gap.next fun _ l hl => ?_
    refine (tandem_expressions hR false (by omega)).bind fun test test' m ⟨hm, htest⟩ => ?_
    refine (tandem_symbol ":" (by decide)).next fun _ n hn => ?_
    refine (tandem_caseBody hR (by omega)).bind fun body body' p hbody => tandem_spanFrom ?_
    have hp := hbody.le
    refine .pure ⟨by omega, .of_row (.mk (.some htest.alike) hbody.alike rfl) rfl ?_⟩
    exact .cons (htest.between.widen (by omega) (by omega)) hbody.row
  · refine (tandem_keyword "default").next fun _ j hj =>
      (tandem_nextSymbol ":" (by decide)).next fun _ l hl => ?_
    refine (tandem_caseBody hR (by omega)).bind fun body body' m hbody => tandem_spanFrom ?_
    have hm := hbody.le
    refine .pure ⟨by omega, .of_row (.mk .none hbody.alike rfl) rfl ?_⟩
    exact hbody.row.widen (by omega) (Nat.le_refl m)

theorem tandem_switchStatement (hi : text.length ≤ i + depth) :
    Tandem text shift i (switchStatement R) (switchStatement R')
      (Past i 1 (Twin text shift i)) := by
  refine .pos ((tandem_keyword "switch").next fun _ j hj => ?_)
  refine (tandem_testInParentheses hR (by omega)).bind fun test test' l ⟨hl, htest⟩ => ?_
  refine (tandem_nextSymbol _ (by decide)).next fun _ m hm => ?_
  have hround : ∀ n, m ≤ n → Tandem text shift n
      (do
        Reader.gap
        switchCase R)
      (do
        Reader.gap
        switchCase R') (Twin text shift n) := by
    intro n hn
    refine tandem_gap.next fun _ p hp => ?_
    exact (tandem_switchCase hR (by omega)).mono fun _ _ _ h => h.2.widen hp (Nat.le_refl _)
  refine (Tandem.many hround fun _ _ _ _ h => h.between.le).bind fun cases cases' n hcases => ?_
  have hcases := TwinList.of_rounds_single hcases
  have hn := hcases.le
  refine (tandem_nextSymbol _ (by decide)).next fun _ p hp => tandem_statementFrom (by omega) ?_
  refine .of_row (.switch htest.alike hcases.alike rfl) rfl ?_
  exact .cons (htest.between.widen (by omega) (by omega))
    (hcases.row.widen (Nat.le_refl m) (by omega))

theorem tandem_loopTarget (hi : text.length ≤ i + depth) :
    Tandem text shift i (loopTarget R) (loopTarget R') (Same i 1) := by
  refine .orElse ?_ (.orElse ?_ (.orElse ?_ (.orElse ?_ ?_)))
  · refine (tandem_keyword "var").next fun _ j hj => tandem_gap.next fun _ l hl => ?_
    refine (tandem_bindingTarget hR (by omega)).bind fun _ _ m ⟨hm, _⟩ => ?_
    exact ((tandem_initializer hR false (by omega)).ends (by omega)).option_ends.discard
      fun _ _ _ h => by omega
  · refine (tandem_keyword "const").next fun _ j hj => tandem_gap.next fun _ l hl => ?_
    exact (tandem_bindingTarget hR (by omega)).discard_past (by omega)
  · refine (tandem_keyword "let").next fun _ j hj => tandem_gap.next fun _ l hl => .ahead ?_
    refine (Tandem.require _).peek fun _ => ?_
    exact (tandem_bindingTarget hR (by omega)).discard_past (by omega)
  · exact (tandem_arrayPattern hR (by omega)).orElse (tandem_objectPattern hR (by omega))
  · refine (tandem_suffixed hR false (by omega)).bind fun o o' j ⟨hj, ho⟩ => ?_
    rw [ho.form]
    exact (Tandem.require _).stays hj

theorem tandem_loopOver (hi : text.length ≤ i + depth + 1) :
    Tandem text shift i (loopOver R) (loopOver R') (Same i 1) := by
  refine (tandem_nextSymbol "(" (by decide)).next fun _ j hj => tandem_gap.next fun _ l hl => ?_
  refine (tandem_loopTarget hR (by omega)).next fun _ m hm => tandem_trivia.next fun _ n hn => ?_
  refine tandem_name.next fun word p hp => (Tandem.require _).peek fun _ => ?_
  refine tandem_gap.next fun _ q hq => ?_
  refine (tandem_expressions hR false (by omega)).bind fun _ _ u ⟨hu, _⟩ => ?_
  exact (tandem_symbol ")" (by decide)).next fun _ v hv => .pure ⟨rfl, by omega⟩

theorem tandem_loopCount (hi : text.length ≤ i + depth + 1) :
    Tandem text shift i (loopCount R) (loopCount R') (Same i 1) := by
  have hpart : ∀ j, i + 1 ≤ j → Tandem text shift j
      (do
        let _ ← expressions R false
        symbol ";")
      (do
        let _ ← expressions R' false
        symbol ";") (Same j 1) := by
    intro j hj
    refine (tandem_expressions hR false (by omega)).bind fun _ _ l ⟨hl, _⟩ => ?_
    exact (tandem_symbol ";" (by decide)).since (by omega)
  have hfirst : ∀ j, i + 1 ≤ j → Tandem text shift j
      ((do let _ ← declaration R .var "var") <|>
        (do let _ ← declaration R .const "const") <|>
        (do let _ ← letDeclaration R) <|>
        Reader.literal ";" <|>
        (do
          let _ ← expressions R false
          symbol ";"))
      ((do let _ ← declaration R' .var "var") <|>
        (do let _ ← declaration R' .const "const") <|>
        (do let _ ← letDeclaration R') <|>
        Reader.literal ";" <|>
        (do
          let _ ← expressions R' false
          symbol ";")) (Same j 1) := fun j hj =>
    .orElse ((tandem_declaration hR .var _ (by omega)).discard fun _ _ _ h => h.1) <|
    .orElse ((tandem_declaration hR .const _ (by omega)).discard fun _ _ _ h => h.1) <|
    .orElse ((tandem_letDeclaration hR (by omega)).discard fun _ _ _ h => h.1) <|
    .orElse (tandem_literal ";" (by decide)) (hpart j hj)
  refine (tandem_nextSymbol "(" (by decide)).next fun _ j hj => tandem_gap.next fun _ l hl => ?_
  refine (hfirst l (by omega)).next fun _ m hm => tandem_gap.next fun _ n hn => ?_
  have hsecond : Tandem text shift n
      (Reader.literal ";" <|> (do
        let _ ← expressions R false
        symbol ";"))
      (Reader.literal ";" <|> (do
        let _ ← expressions R' false
        symbol ";")) (Same n 1) := (tandem_literal ";" (by decide)).orElse (hpart n (by omega))
  refine hsecond.next fun _ p hp => tandem_gap.next fun _ q hq => ?_
  refine ((tandem_expressions hR false (by omega)).ends (by omega)).option_ends.bind
    fun _ _ u hu => ?_
  exact (tandem_symbol ")" (by decide)).next fun _ v hv => .pure ⟨rfl, by omega⟩

theorem tandem_forStatement (hi : text.length ≤ i + depth) :
    Tandem text shift i (forStatement R) (forStatement R') (Past i 1 (Twin text shift i)) := by
  refine .pos ((tandem_keyword "for").next fun _ j hj => ?_)
  have hkind : Tandem text shift j
      ((do
        let _ ← Reader.option (nextKeyword "await")
        loopOver R) <|> loopCount R)
      ((do
        let _ ← Reader.option (nextKeyword "await")
        loopOver R') <|> loopCount R') (Same j 1) := by
    refine .orElse ((tandem_nextKeyword "await").option_same.next fun _ l hl => ?_) ?_
    · exact (tandem_loopOver hR (by omega)).since (by omega)
    · exact tandem_loopCount hR (by omega)
  refine hkind.next fun kind l hl => ?_
  refine (tandem_nested hR (by omega)).bind fun _ _ m ⟨hm, _⟩ => ?_
  exact tandem_unsupportedStatement _ (by omega) (by omega)

theorem tandem_whileStatement (hi : text.length ≤ i + depth) :
    Tandem text shift i (whileStatement R) (whileStatement R')
      (Past i 1 (Twin text shift i)) := by
  refine .pos ((tandem_keyword "while").next fun _ j hj => ?_)
  refine (tandem_testInParentheses hR (by omega)).bind fun _ _ l ⟨hl, _⟩ => ?_
  refine (tandem_nested hR (by omega)).bind fun _ _ m ⟨hm, _⟩ => ?_
  exact tandem_unsupportedStatement _ (by omega) (by omega)

theorem tandem_doStatement (hi : text.length ≤ i + depth) :
    Tandem text shift i (doStatement R) (doStatement R') (Past i 1 (Twin text shift i)) := by
  refine .pos ((tandem_keyword "do").next fun _ j hj => ?_)
  refine (tandem_nested hR (by omega)).bind fun _ _ l ⟨hl, _⟩ => ?_
  refine (tandem_nextKeyword "while").next fun _ m hm => ?_
  refine (tandem_testInParentheses hR (by omega)).bind fun _ _ n ⟨hn, _⟩ => ?_
  have hend : Tandem text shift n (Reader.semicolon true <|> Reader.noMark)
      (Reader.semicolon true <|> Reader.noMark) (Same n 0) :=
    (tandem_semicolon true).orElse (tandem_noMark.stays (Nat.le_refl n))
  exact hend.next fun _ p hp => tandem_unsupportedStatement _ (by omega) (by omega)

theorem tandem_tryStatement (hi : text.length ≤ i + depth) :
    Tandem text shift i (tryStatement R) (tryStatement R') (Past i 1 (Twin text shift i)) := by
  have hblock : ∀ j, i ≤ j → Tandem text shift j
      (do
        Reader.gap
        block R true)
      (do
        Reader.gap
        block R' true) (Ends j) := fun j hj =>
    tandem_gap.next fun _ l hl => (tandem_block hR true (by omega)).ends (by omega)
  have hparameter : ∀ j, i ≤ j → Tandem text shift j
      (do
        nextSymbol "("
        Reader.gap
        let _ ← bindingTarget R
        nextSymbol ")")
      (do
        nextSymbol "("
        Reader.gap
        let _ ← bindingTarget R'
        nextSymbol ")") (Same j 1) := by
    intro j hj
    refine (tandem_nextSymbol "(" (by decide)).next fun _ l hl => tandem_gap.next fun _ m hm => ?_
    refine (tandem_bindingTarget hR (by omega)).bind fun _ _ n ⟨hn, _⟩ => ?_
    exact (tandem_nextSymbol ")" (by decide)).since (by omega)
  refine .pos ((tandem_keyword "try").next fun _ j hj => tandem_gap.next fun _ l hl => ?_)
  refine (tandem_block hR true (by omega)).bind fun _ _ m ⟨hm, _⟩ => ?_
  refine (Tandem.behind_ends (tandem_nextKeyword "catch") fun n hn => ?_).bind fun _ _ n hn => ?_
  · refine (hparameter n (by omega)).option_same.next fun _ p hp => ?_
    exact (hblock p (by omega)).mono fun _ _ _ h => by omega
  refine (Tandem.behind_ends (tandem_nextKeyword "finally") fun p hp => ?_).bind fun _ _ p hp => ?_
  · exact (hblock p (by omega)).mono fun _ _ _ h => by omega
  exact tandem_unsupportedStatement _ (by omega) (by omega)

theorem tandem_withStatement (hi : text.length ≤ i + depth) :
    Tandem text shift i (withStatement R) (withStatement R') (Past i 1 (Twin text shift i)) := by
  refine .pos ((tandem_keyword "with").next fun _ j hj => ?_)
  refine (tandem_testInParentheses hR (by omega)).bind fun _ _ l ⟨hl, _⟩ => ?_
  refine (tandem_nested hR (by omega)).bind fun _ _ m ⟨hm, _⟩ => ?_
  exact tandem_unsupportedStatement _ (by omega) (by omega)

omit hR in
theorem tandem_jump (word : String) :
    Tandem text shift i (jump word) (jump word) (Same i 1) := by
  refine (tandem_keyword word).next fun _ j hj => (tandem_atSupplied true).peek fun b => ?_
  have hlabel : Tandem text shift j
      (do
        Reader.trivia
        Reader.name)
      (do
        Reader.trivia
        Reader.name) (Same j 0) := tandem_trivia.next fun _ l hl => tandem_name.since (by omega)
  refine .optionUnless (fun _ => hlabel) fun label label' l hmaybe => ?_
  have hl := hmaybe.le fun _ _ _ h => h.2
  refine (tandem_semicolon true).next fun _ m hm => .pure ⟨?_, by omega⟩
  cases hmaybe <;> rfl

omit hR in
theorem tandem_exitStatement :
    Tandem text shift i exitStatement exitStatement (Past i 1 (Twin text shift i)) := by
  refine .pos ((tandem_jump "break").next fun b j hj => .ite (fun _ => ?_) fun _ => ?_)
  · exact tandem_unsupportedStatement _ hj (by omega)
  · exact tandem_statementFrom hj (Stmt.isLeaf_exit.twin (by omega))

omit hR in
theorem tandem_continueStatement :
    Tandem text shift i continueStatement continueStatement (Past i 1 (Twin text shift i)) :=
  .pos ((tandem_jump "continue").next fun _ _ hj => tandem_unsupportedStatement _ hj (by omega))

theorem tandem_returnStatement (hi : text.length ≤ i + depth) :
    Tandem text shift i (returnStatement R) (returnStatement R')
      (Past i 1 (Twin text shift i)) := by
  refine .pos ((tandem_keyword "return").next fun _ j hj =>
    (tandem_atSupplied true).peek fun b => ?_)
  have hvalue : Tandem text shift j
      (do
        Reader.trivia
        expressions R true)
      (do
        Reader.trivia
        expressions R' true) (Twin text shift j) :=
    tandem_trivia.next fun _ l hl => (tandem_expressions hR true (by omega)).mono
      fun _ _ _ h => h.2.widen hl (Nat.le_refl _)
  refine .optionUnless (fun _ => hvalue) fun value value' l hmaybe => ?_
  have hl := hmaybe.le fun _ _ _ h => h.between.le
  cases hmaybe with
  | none =>
    refine (tandem_semicolon _).next fun _ m hm => tandem_statementFrom (by omega) ?_
    exact .of_row (.ret .none rfl) rfl (.nil (by omega))
  | some h =>
    refine (tandem_semicolon _).next fun _ m hm => tandem_statementFrom (by omega) ?_
    refine .of_row (.ret (.some h.alike) rfl) rfl ?_
    exact .single (h.between.widen (by omega) (by omega))

theorem tandem_throwStatement (hi : text.length ≤ i + depth) :
    Tandem text shift i (throwStatement R) (throwStatement R')
      (Past i 1 (Twin text shift i)) := by
  refine .pos ((tandem_keyword "throw").next fun _ j hj => tandem_gap.next fun _ l hl => ?_)
  refine (tandem_expressions hR true (by omega)).bind fun _ _ m ⟨hm, _⟩ => ?_
  refine (tandem_semicolon false).next fun _ n hn => ?_
  exact tandem_unsupportedStatement _ (by omega) (by omega)

omit hR in
theorem tandem_debuggerStatement :
    Tandem text shift i debuggerStatement debuggerStatement (Past i 1 (Twin text shift i)) :=
  .pos ((tandem_keyword "debugger").next fun _ _ hj => (tandem_semicolon true).next fun _ _ hl =>
    tandem_unsupportedStatement _ (by omega) (by omega))

/-! ## Imports and exports -/

omit hR in
theorem tandem_exportName : Tandem text shift i exportName exportName (Same i 1) :=
  (tandem_name.discard fun _ _ _ h => h.2).orElse (tandem_string.discard fun _ _ _ h => h.2)

omit hR in
theorem tandem_exportSpecifier :
    Tandem text shift i exportSpecifier exportSpecifier (Same i 1) := by
  refine tandem_exportName.next fun _ j hj => ?_
  have hname : ∀ l, j + 1 ≤ l → Tandem text shift l
      (do
        Reader.gap
        exportName)
      (do
        Reader.gap
        exportName) (Same l 0) := fun l hl =>
    tandem_gap.next fun _ m hm => tandem_exportName.since (by omega)
  exact ((Tandem.behind_same (tandem_nextKeyword "as") hname).since (by omega)).discard
    fun _ _ _ h => h.2

omit hR in
theorem tandem_importSpecifier :
    Tandem text shift i importSpecifier importSpecifier (Same i 1) := by
  refine .orElse (tandem_exportName.next fun _ j hj =>
      (tandem_nextKeyword "as").next fun _ l hl => ?_)
    (tandem_name.discard fun _ _ _ h => h.2)
  exact tandem_gap.next fun _ m hm => (tandem_name.since (by omega)).discard fun _ _ _ h => h.2

omit hR in
theorem tandem_nameList {specifier : Reader Unit}
    (h : ∀ j, Tandem text shift j specifier specifier (Same j 1)) :
    Tandem text shift i (nameList specifier) (nameList specifier) (Same i 1) := by
  refine (tandem_nextSymbol _ (by decide)).next fun _ j hj => ?_
  have hnames : Tandem text shift j
      (do
        Reader.gap
        specifier
        let _ ← Reader.many do
          nextSymbol ","
          Reader.gap
          specifier)
      (do
        Reader.gap
        specifier
        let _ ← Reader.many do
          nextSymbol ","
          Reader.gap
          specifier) (Same j 0) := by
    refine tandem_gap.next fun _ l hl => (h l).next fun _ m hm => ?_
    refine ((Tandem.many_same fun n hn => ?_).since (by omega)).discard fun _ _ _ h => h.2
    refine (tandem_nextSymbol "," (by decide)).next fun _ p hp => tandem_gap.next fun _ q hq => ?_
    exact (h q).since (by omega)
  refine hnames.option_same.next fun _ l hl => ?_
  refine (tandem_nextSymbol "," (by decide)).option_same.next fun _ m hm => ?_
  exact (tandem_nextSymbol _ (by decide)).since (by omega)

omit hR in
theorem tandem_namespaceName {name : Reader Unit}
    (h : ∀ j, Tandem text shift j name name (Same j 1)) :
    Tandem text shift i (namespaceName name) (namespaceName name) (Same i 1) := by
  refine (tandem_nextSymbol "*" (by decide)).next fun _ j hj =>
    (tandem_nextKeyword "as").next fun _ l hl => ?_
  exact tandem_gap.next fun _ m hm => (h m).since (by omega)

omit hR in
theorem tandem_importedNames : Tandem text shift i importedNames importedNames (Same i 1) :=
  (tandem_namespaceName fun _ => tandem_name.discard fun _ _ _ h => h.2).orElse
    (tandem_nameList fun _ => tandem_importSpecifier)

omit hR in
theorem tandem_importClause : Tandem text shift i importClause importClause (Same i 1) := by
  refine tandem_importedNames.orElse (tandem_name.next fun _ j hj => ?_)
  have hcomma : Tandem text shift j (nextSymbol ",") (nextSymbol ",") (Same j 1) :=
    tandem_nextSymbol "," (by decide)
  exact ((Tandem.behind_same hcomma fun _ _ => tandem_importedNames).since
    (by omega)).discard fun _ _ _ h => h.2

omit hR in
theorem tandem_fromClause : Tandem text shift i fromClause fromClause (Same i 1) :=
  (tandem_nextKeyword "from").next fun _ _ hj => tandem_gap.next fun _ _ hl =>
    tandem_string.since (by omega)

theorem tandem_importStatement (hi : text.length ≤ i + depth) :
    Tandem text shift i (importStatement R) (importStatement R')
      (Past i 1 (Twin text shift i)) := by
  refine .pos ((tandem_keyword "import").next fun _ j hj => tandem_gap.next fun _ l hl => ?_)
  have hsource : Tandem text shift l
      (Reader.string <|> (do
        importClause
        fromClause))
      (Reader.string <|> (do
        importClause
        fromClause)) (Same l 1) :=
    tandem_string.orElse (tandem_importClause.next fun _ _ hm => tandem_fromClause.since (by omega))
  refine hsource.next fun source m hm => (tandem_atSupplied true).peek fun b => ?_
  have hend : ∀ n, m ≤ n → Tandem text shift n
      (do
        Reader.semicolon true
        statementFrom (offsetAt text i) (.importModule source))
      (do
        Reader.semicolon true
        statementFrom (offsetAt text i + shift) (.importModule source))
      (Past i 1 (Twin text shift i)) := fun n hn =>
    (tandem_semicolon true).next fun _ p hp => tandem_statementFrom (by omega)
      ((Stmt.isLeaf_importModule source).twin (by omega))
  refine .ite (fun _ => ?_) fun _ => hend m (Nat.le_refl m)
  have hobject : ∀ n, m + 1 ≤ n → Tandem text shift n
      (do
        Reader.gap
        object R)
      (do
        Reader.gap
        object R') (Same n 0) := fun n hn =>
    tandem_gap.next fun _ p hp => (tandem_object hR (by omega)).since (by omega)
  refine tandem_noMark.peek fun _ => ?_
  exact (Tandem.behind_same (tandem_nextKeyword "with") hobject).next fun _ n hn => hend n hn

theorem tandem_exportedDeclaration (hi : text.length ≤ i + depth) :
    Tandem text shift i (exportedDeclaration R) (exportedDeclaration R') (Same i 0) := by
  refine (tandem_decorators hR (by omega)).next fun _ j hj => .pos ?_
  refine .orElse ((tandem_declaration hR .var _ (by omega)).discard_past (by omega)) <|
    .orElse ((tandem_declaration hR .const _ (by omega)).discard_past (by omega)) <|
    .orElse ((tandem_letDeclaration hR (by omega)).discard_past (by omega)) <|
    .orElse ?_ <|
    .orElse ((tandem_asyncFunction hR (by omega)).discard_past (by omega)) ?_
  · refine tandem_seesNamedFunction.peek fun b => (Tandem.require b).peek fun _ => ?_
    exact (tandem_namedFunction hR (Nat.le_refl j) (by omega)).discard_past (by omega)
  · refine tandem_seesNamedClass.peek fun b => (Tandem.require b).peek fun _ => ?_
    exact (tandem_namedClass hR (Nat.le_refl j) (by omega)).discard_past (by omega)

theorem tandem_exportRest (hi : text.length ≤ i + depth) :
    Tandem text shift i (exportRest R) (exportRest R') (Same i 0) := by
  refine .orElse ?_ (.orElse ?_ (.orElse ?_ (.orElse ?_ ?_)))
  · refine (tandem_keyword "default").next fun _ j hj => tandem_gap.next fun _ l hl => ?_
    have hvalue : Tandem text shift l
        (exportedDeclaration R <|> (do
          let _ ← R.assignment true
          Reader.semicolon false))
        (exportedDeclaration R' <|> (do
          let _ ← R'.assignment true
          Reader.semicolon false)) (Same l 0) := by
      refine (tandem_exportedDeclaration hR (by omega)).orElse ?_
      refine (hR.expression true 0 l (by omega)).bind fun _ _ m ⟨hm, _⟩ => ?_
      exact (tandem_semicolon false).since (by omega)
    exact hvalue.next fun _ m hm => .pure ⟨rfl, by omega⟩
  · exact (tandem_exportedDeclaration hR hi).next fun _ j hj => .pure ⟨rfl, hj⟩
  · refine (tandem_namespaceName fun _ => tandem_exportName).next fun _ j hj => ?_
    refine tandem_fromClause.next fun _ l hl => (tandem_semicolon true).next fun _ m hm => ?_
    exact .pure ⟨rfl, by omega⟩
  · refine (tandem_literal "*" (by decide)).next fun _ j hj =>
      tandem_fromClause.next fun _ l hl => ?_
    exact (tandem_semicolon true).next fun _ m hm => .pure ⟨rfl, by omega⟩
  · refine (tandem_nameList fun _ => tandem_exportSpecifier).next fun _ j hj => ?_
    have hend : ∀ l, j ≤ l → Tandem text shift l
        (do
          Reader.semicolon true
          return NodeKind.exportNamedDeclaration)
        (do
          Reader.semicolon true
          return NodeKind.exportNamedDeclaration) (Same i 0) := fun l hl =>
      (tandem_semicolon true).next fun _ m hm => .pure ⟨rfl, by omega⟩
    refine (tandem_atSupplied true).peek fun b => .ite (fun _ => ?_) fun _ => hend j (Nat.le_refl j)
    exact tandem_noMark.peek fun _ => tandem_fromClause.option_same.next fun _ l hl => hend l hl

theorem tandem_exportStatement (hi : text.length ≤ i + depth) :
    Tandem text shift i (exportStatement R) (exportStatement R')
      (Past i 1 (Twin text shift i)) := by
  refine .pos ((tandem_decorators hR (by omega)).next fun _ j hj => ?_)
  refine (tandem_keyword "export").next fun _ l hl => (tandem_atSupplied false).peek fun b => ?_
  refine (Tandem.require _).peek fun _ => tandem_trivia.next fun _ m hm => ?_
  refine (tandem_exportRest hR (by omega)).next fun kind n hn => ?_
  exact tandem_unsupportedStatement _ (by omega) (by omega)

/-! ## Statements -/

theorem tandem_blockStatement (hi : text.length ≤ i + depth) :
    Tandem text shift i (blockStatement R) (blockStatement R')
      (Past i 1 (Twin text shift i)) := by
  refine .pos ((tandem_block hR false hi).bind fun body body' j ⟨hj, hbody⟩ => ?_)
  exact tandem_statementFrom hj (.of_row (.block hbody.alike rfl) rfl hbody.row)

omit hR in
theorem tandem_seesLabel : Tandem text shift i seesLabel seesLabel (Stays i) := by
  refine Tandem.sees (P := Same i 1) ?_
  refine (tandem_literal _ (by decide)).next fun _ j hj => tandem_gap.next fun _ l hl => ?_
  exact tandem_name.next fun _ m hm => (tandem_symbol ":" (by decide)).since (by omega)

omit hR in
theorem tandem_seesContinuation :
    Tandem text shift i seesContinuation seesContinuation (Stays i) := by
  refine Tandem.sees (P := Same i 0) (tandem_trivia.next fun _ j hj => .ahead ?_)
  split
  · exact (Tandem.require _).stays hj
  · exact (Tandem.require _).stays hj
  · split
    · exact (Tandem.require _).stays hj
    · exact (Tandem.require _).stays hj
  · exact .failure

theorem tandem_objectStatement (hi : text.length ≤ i + depth) :
    Tandem text shift i (objectStatement R) (objectStatement R')
      (Past i 1 (Twin text shift i)) :=
  (tandem_looksLikeObject hR (by omega)).peek fun _ => (Tandem.require _).peek fun _ =>
    tandem_expressionStatement hR hi

theorem tandem_braceStatement (hi : text.length ≤ i + depth) :
    Tandem text shift i (braceStatement R) (braceStatement R')
      (Past i 1 (Twin text shift i)) := by
  have hobject := tandem_objectStatement hR hi
  have hblock := tandem_blockStatement hR hi
  refine tandem_seesLabel.peek fun b => (tandem_looksLikeObject hR (by omega)).peek fun b' => ?_
  refine .ite (fun _ => hobject.orElse hblock) fun _ => .here ?_
  refine hblock.option.bind fun statement statement' j hmaybe => ?_
  cases hmaybe with
  | none => exact hobject
  | some h =>
    refine tandem_seesContinuation.peek fun b => .ite (fun _ => ?_) fun _ => .pure h
    exact .orElse (.goTo hobject) (.pure h)

theorem tandem_wordStatement (word : String)
    (hi : text.length ≤ i + depth) :
    Tandem text shift i (wordStatement R word) (wordStatement R' word)
      (Past i 1 (Twin text shift i)) := by
  have hlabeled := tandem_labeled hR hi
  have hexpression := tandem_expressionStatement hR hi
  refine .pos ?_
  split
  · exact tandem_declaration hR .var _ hi
  · exact tandem_declaration hR .const _ hi
  · exact (tandem_letDeclaration hR hi).orElse (hlabeled.orElse hexpression)
  · exact tandem_branch hR hi
  · exact tandem_switchStatement hR hi
  · exact tandem_forStatement hR hi
  · exact tandem_whileStatement hR hi
  · exact tandem_doStatement hR hi
  · exact tandem_tryStatement hR hi
  · exact tandem_withStatement hR hi
  · exact tandem_exitStatement
  · exact tandem_continueStatement
  · exact tandem_returnStatement hR hi
  · exact tandem_throwStatement hR hi
  · exact tandem_debuggerStatement
  · refine tandem_seesNamedFunction.peek fun b => .ite (fun _ => ?_) fun _ => hexpression
    exact tandem_namedFunction hR (Nat.le_refl i) hi
  · refine tandem_seesNamedClass.peek fun b => .ite (fun _ => ?_) fun _ => hexpression
    exact tandem_namedClass hR (Nat.le_refl i) hi
  · exact (tandem_asyncFunction hR hi).orElse (hlabeled.orElse hexpression)
  · have hsymbol : Tandem text shift i
        (do
          Reader.keyword "import"
          nextSymbol "(" <|> nextSymbol ".")
        (do
          Reader.keyword "import"
          nextSymbol "(" <|> nextSymbol ".") (Same i 1) :=
      (tandem_keyword "import").next fun _ j hj =>
        ((tandem_nextSymbol "(" (by decide)).since (by omega)).orElse
          ((tandem_nextSymbol "." (by decide)).since (by omega))
    refine hsymbol.sees.peek fun b => .ite (fun _ => hexpression) fun _ => ?_
    exact tandem_importStatement hR hi
  · exact (tandem_exportStatement hR hi).orElse (hlabeled.orElse hexpression)
  · exact hlabeled.orElse hexpression

/-- Statements. -/
theorem tandem_statementRule (hi : text.length ≤ i + depth) :
    Tandem text shift i (statementRule R) (statementRule R') (Past i 1 (Twin text shift i)) := by
  have hexpression := tandem_expressionStatement hR hi
  refine .pos (.ahead ?_)
  split
  · exact (tandem_literal ";" (by decide)).next fun _ j hj =>
      tandem_statementFrom hj (Stmt.isLeaf_empty.twin (by omega))
  · exact tandem_braceStatement hR hi
  · refine .orElse ?_ ((tandem_exportStatement hR hi).orElse hexpression)
    refine (tandem_decorators hR (by omega)).next fun _ j hj =>
      tandem_seesNamedClass.peek fun b => ?_
    refine (Tandem.require b).peek fun _ => tandem_namedClass hR hj (by omega)
  · split
    · exact tandem_wordStatement hR _ hi
    · exact hexpression

/-! ## Levels -/

/-- **One level more of the grammar** takes one character more. -/
theorem Readers.Agree.level :
    (level R).Agree text shift (depth + 1) (level R') where
  operand semi _ hi := tandem_operandRule hR semi (by omega)
  expression semi bound _ hi := tandem_expressionRule hR semi bound (by omega)
  pattern _ hi := tandem_patternRule hR (by omega)
  element _ hi := tandem_elementRule hR (by omega)
  statement _ hi := tandem_statementRule hR (by omega)

end Rules

/-! ### The end of the text

At the end of a text no rule can go on, whatever readers it is given, except
that a statement may be an expression. -/

theorem operandRule_end (R : Readers) (semi : Bool) (pos : Nat) :
    operandRule R semi ⟨pos, []⟩ = none := rfl

theorem expressionRule_end (R : Readers) (semi : Bool) (bound pos : Nat) :
    expressionRule R semi bound ⟨pos, []⟩ = none := rfl

theorem patternRule_end (R : Readers) (pos : Nat) : patternRule R ⟨pos, []⟩ = none := rfl

/-- An element of markup does not fit into one character. -/
theorem elementRule_end (R : Readers) (pos : Nat) {rest : List Char} (h : rest.length ≤ 1) :
    elementRule R ⟨pos, rest⟩ = none := by
  match rest, h with
  | [], _ => rfl
  | [c], _ =>
    by_cases hc : c = '<'
    · subst hc
      rfl
    · have hliteral : "<".toList.isPrefixOf [c] = false := by
        simp [List.isPrefixOf, Ne.symm hc]
      show ((Reader.require ("<".toList.isPrefixOf [c]) ⟨pos, [c]⟩).bind _).bind _ = none
      rw [hliteral]
      rfl

theorem statementRule_end (R : Readers) (pos : Nat)
    (h : R.expression true 0 ⟨pos, []⟩ = none) : statementRule R ⟨pos, []⟩ = none := by
  show (((R.expression true 0 ⟨pos, []⟩).bind _).bind _).bind _ = none
  rw [h]
  rfl

theorem readers_expression_end (m : Nat) (semi : Bool) (bound pos : Nat) :
    (readers m).expression semi bound ⟨pos, []⟩ = none := by
  cases m with
  | zero => rfl
  | succ m => exact expressionRule_end _ semi bound pos

/-- At the end of a text all readers agree with those that always fail. -/
theorem stuck_agree (text : List Char) (shift m : Nat) :
    Readers.stuck.Agree text shift 0 (readers m) := by
  have hend : ∀ {i : Nat}, text.length ≤ i + 0 →
      (Cursor.at text i).moved shift = ⟨offsetAt text i + shift, []⟩ := fun hi =>
    congrArg (Cursor.mk _) (List.drop_eq_nil_of_le hi)
  cases m with
  | zero => exact ⟨fun _ _ _ => .failure, fun _ _ _ _ => .failure, fun _ _ => .failure,
      fun _ _ => .failure, fun _ _ => .failure⟩
  | succ m =>
    refine ⟨fun semi i hi => .inl ⟨rfl, ?_⟩, fun semi bound i hi => .inl ⟨rfl, ?_⟩,
      fun i hi => .inl ⟨rfl, ?_⟩, fun i hi => .inl ⟨rfl, ?_⟩, fun i hi => .inl ⟨rfl, ?_⟩⟩
    · rw [hend hi]
      exact operandRule_end _ semi _
    · rw [hend hi]
      exact expressionRule_end _ semi bound _
    · rw [hend hi]
      exact patternRule_end _ _
    · have hlength : (text.drop i).length ≤ 1 := by
        rw [List.length_drop]
        omega
      exact elementRule_end _ _ hlength
    · rw [hend (by omega)]
      exact statementRule_end _ _ (readers_expression_end m true 0 _)

/-- **Readers for two depths agree** as far as the smaller of them reaches. -/
theorem readers_agree (text : List Char) (shift : Nat) {n m : Nat} (h : n ≤ m) :
    (readers n).Agree text shift n (readers m) := by
  induction n generalizing m with
  | zero => exact stuck_agree text shift m
  | succ n ih =>
    cases m with
    | zero => omega
    | succ m => exact (ih (Nat.le_of_succ_le_succ h)).level

/-! ## Programs -/

theorem hashBang?_takes : Lexeme.Takes 1 hashBang? := by
  intro cs count h
  unfold hashBang? at h
  grind

theorem tandem_interpreterLine : Tandem text shift i interpreterLine interpreterLine
    (MarkTwins text shift (i + spaces (text.drop i))) := by
  refine tandem_marks.bind fun marks marks' j hmarks => ?_
  refine (tandem_token hashBang?_takes).next fun _ l hl => .pure ⟨hmarks.moved, ?_⟩
  exact hmarks.row.stretch (by omega)

/-- The statements of a program are read in tandem, behind the white space that
comes first. -/
theorem tandem_programBody (hR : R.Agree text shift depth R') (hi : text.length < i + depth) :
    Tandem text shift i (programBody R) (programBody R')
      (TwinList text shift (i + spaces (text.drop i))) := by
  refine tandem_interpreterLine.option.bind fun marks marks' j hmaybe => ?_
  cases hmaybe with
  | none =>
    refine (tandem_statements hR hi).bind fun body body' l hbody => .pure ?_
    exact hbody.dropWhile fun _ _ => isDirective_eq_of_alike
  | @some marks marks' _ hmarks =>
    obtain ⟨rfl, hrow⟩ := hmarks
    have hj := hrow.le
    refine (tandem_statements hR (by omega)).bind fun body body' l hbody => .pure ?_
    exact ((Stmt.isLeaf_unsupported markKind).twinList hrow).append
      (hbody.widen (Nat.le_add_right j _) (Nat.le_refl l))

end ScriptToShell.Grammar
