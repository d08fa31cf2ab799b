import ScriptToShell.Proofs.Fragment
import ScriptToShell.Proofs.Quotation

/-!
# Which text stands for which expression

An expression becomes a piece of shell text by rules that nest in each other: a
value may hold a test, a test a call, a call its arguments, and an argument is a
value again. `Transcribes` relates a part of an expression to its text, one rule
for each way in which text is put together.

The rules are exactly what is written: whatever is written for an expression is
related to it (`Expr.transcribes`), and what is related to it is written for it
(`Transcribes.text_eq`). What text and expression have to do with each other is
then proved rule by rule.
-/

namespace ScriptToShell

open Emit
open Text (joinWith)

/-! ## Names -/

/-- The name that a position has of its own: of a variable or command that
is used, or of a function, parameter or variable that is introduced. -/
def Position.names : Position → List String
  | .statement (.function name _ _ _) _ _ => [name]
  | .expression (.identifier name _) _ => [name]
  | .pattern (.identifier name _) => [name]
  | _ => []

/-- **A position whose name is of a kind.** -/
def Position.Named (ok : String → Prop) (x : Position) : Prop := ∀ name ∈ x.names, ok name

/-- **The names in an expression.** -/
def Expr.names (e : Expr) : List String := (e.positions .value).flatMap Position.names

/-- The names in a list of statements. -/
def Stmt.namesAll (stmts : List Stmt) : List String :=
  (Stmt.partsAll false stmts).flatMap Position.names

/-- **The names in a program.** -/
def Program.names (p : Program) : List String := Stmt.namesAll p.body

theorem Expr.forall_names {ok : String → Prop} {e : Expr} :
    (∀ name ∈ e.names, ok name) ↔ ∀ x ∈ e.positions .value, x.Named ok :=
  List.forall_mem_flatMap

theorem Stmt.forall_namesAll {ok : String → Prop} {stmts : List Stmt} :
    (∀ name ∈ Stmt.namesAll stmts, ok name) ↔ ∀ x ∈ Stmt.partsAll false stmts, x.Named ok :=
  List.forall_mem_flatMap

/-! ## The rules -/

/-- **What a text is written for.** -/
inductive Piece where
  /-- The value of an expression. -/
  | value (e : Expr)
  /-- An argument of a command. -/
  | argument (e : Expr)
  /-- The arguments of a command. -/
  | arguments (es : List Expr)
  /-- Commands that print values, with the redirection of each. -/
  | prints (redirection : String) (es : List Expr)
  /-- A call as a command. -/
  | command (callee : Expr) (arguments : List Expr) (span : Span)
  /-- The test of an expression. -/
  | test (e : Expr)

/-- **The text of a piece.** -/
def Piece.text (target : Target) : Piece → Except Fault String
  | .value e => e.value target
  | .argument e => e.argument target
  | .arguments es => (es.mapM (Expr.argument target)).map (joinWith " ")
  | .prints redirection es => (es.mapM (Expr.value target)).map fun values =>
      joinWith "\n" (values.map fun v => "echo " ++ v ++ redirection)
  | .command callee es span => Expr.callText callee es span (Expr.texts target es)
  | .test e => e.condition target

/-- Whether the value of an expression is the outcome of its test. -/
def Expr.isTest : Expr → Bool
  | .binary op .. => op.isComparison
  | .logical .. | .not .. => true
  | _ => false

/-- Whether an expression is a number that stands unquoted as an argument. -/
def Expr.isBareNumber : Expr → Bool
  | .literal (.number n) _ => Numeral.isBare n
  | _ => false

/-- **The rules by which expressions are written**, with names of a given
kind. -/
inductive Transcribes (ok : String → Prop) (target : Target) : Piece → String → Prop where
  | reference {name : String} {span : Span} (h : ok name) :
      Transcribes ok target (.value (.identifier name span)) ("\"$" ++ name ++ "\"")
  | quoted {value : Literal} {span : Span} (h : ∀ c ∈ value.text.toList, c ∉ activeCharacters) :
      Transcribes ok target (.value (.literal value span)) ("\"" ++ value.text ++ "\"")
  | property {object : Expr} {property text : String} {span : Span}
      (h : memberText object property span = .ok text) :
      Transcribes ok target (.value (.member object property span)) text
  | arithmetic {op : BinaryOp} {left right : Expr} {span : Span} {l o r : String}
      (ho : arithmeticOperator op target span = .ok o) (hl : Transcribes ok target (.value left) l)
      (hr : Transcribes ok target (.value right) r) :
      Transcribes ok target (.value (.binary op left right span))
        ("$(( " ++ l ++ " " ++ o ++ " " ++ r ++ " ))")
  | boolean {e : Expr} {t : String} (he : e.isTest = true) (h : Transcribes ok target (.test e) t) :
      Transcribes ok target (.value e) (booleanWord t)
  | substitution {callee : Expr} {arguments : List Expr} {span : Span} {t : String}
      (h : Transcribes ok target (.command callee arguments span) t) :
      Transcribes ok target (.value (.call callee arguments span)) ("$(" ++ t ++ ")")
  | number {n : String} {span : Span} (h : Numeral.isBare n = true) :
      Transcribes ok target (.argument (.literal (.number n) span)) n
  | word {e : Expr} {v : String} (he : e.isBareNumber = false)
      (h : Transcribes ok target (.value e) v) : Transcribes ok target (.argument e) v
  | last {e : Expr} {a : String} (h : Transcribes ok target (.argument e) a) :
      Transcribes ok target (.arguments [e]) a
  | more {e f : Expr} {es : List Expr} {a as : String} (ha : Transcribes ok target (.argument e) a)
      (has : Transcribes ok target (.arguments (f :: es)) as) :
      Transcribes ok target (.arguments (e :: f :: es)) (a ++ " " ++ as)
  | name {name : String} {s span : Span} (h : ok name) :
      Transcribes ok target (.command (.identifier name s) [] span) name
  | call {name as : String} {s span : Span} {e : Expr} {es : List Expr} (h : ok name)
      (has : Transcribes ok target (.arguments (e :: es)) as) :
      Transcribes ok target (.command (.identifier name s) (e :: es) span) (name ++ " " ++ as)
  | echo {object : Expr} {property redirection : String} {s span : Span}
      (h : redirection? object property = some redirection) :
      Transcribes ok target (.command (.member object property s) [] span)
        ("echo" ++ redirection)
  | prints {object : Expr} {property redirection t : String} {s span : Span} {e : Expr}
      {es : List Expr} (h : redirection? object property = some redirection)
      (ht : Transcribes ok target (.prints redirection (e :: es)) t) :
      Transcribes ok target (.command (.member object property s) (e :: es) span) t
  | line {redirection v : String} {e : Expr} (hredirection : redirection ∈ redirections)
      (hv : Transcribes ok target (.value e) v) :
      Transcribes ok target (.prints redirection [e]) ("echo " ++ v ++ redirection)
  | lines {redirection v t : String} {e f : Expr} {es : List Expr}
      (hredirection : redirection ∈ redirections) (hv : Transcribes ok target (.value e) v)
      (ht : Transcribes ok target (.prints redirection (f :: es)) t) :
      Transcribes ok target (.prints redirection (e :: f :: es))
        ("echo " ++ v ++ redirection ++ "\n" ++ t)
  | comparison {op : BinaryOp} {left right : Expr} {span : Span} {l o r : String}
      (ho : testOperator op span = .ok o) (hl : Transcribes ok target (.value left) l)
      (hr : Transcribes ok target (.value right) r) :
      Transcribes ok target (.test (.binary op left right span))
        ("[ " ++ l ++ " " ++ o ++ " " ++ r ++ " ]")
  | nonzero {op : BinaryOp} {left right : Expr} {span : Span} {v : String}
      (hop : op.isComparison = false)
      (h : Transcribes ok target (.value (.binary op left right span)) v) :
      Transcribes ok target (.test (.binary op left right span)) ("[ " ++ v ++ " -ne 0 ]")
  | referenceTest {name : String} {span : Span} (h : ok name) :
      Transcribes ok target (.test (.identifier name span)) (truthy ("\"$" ++ name ++ "\""))
  | propertyTest {object : Expr} {property text : String} {span : Span}
      (h : memberText object property span = .ok text) :
      Transcribes ok target (.test (.member object property span)) (truthy text)
  | constant {value : Literal} {span : Span} :
      Transcribes ok target (.test (.literal value span)) (if value.truth then "true" else "false")
  | status {callee : Expr} {arguments : List Expr} {span : Span} {t : String}
      (h : Transcribes ok target (.command callee arguments span) t) :
      Transcribes ok target (.test (.call callee arguments span)) t
  | logical {op : LogicalOp} {left right : Expr} {span : Span} {l r : String}
      (hl : Transcribes ok target (.test left) l) (hr : Transcribes ok target (.test right) r) :
      Transcribes ok target (.test (.logical op left right span))
        (bracedIf (left.needsBraces op) l ++ " " ++ op.token ++ " "
          ++ bracedIf (right.needsBraces op) r)
  | negated {e : Expr} {span : Span} {t : String} (h : Transcribes ok target (.test e) t) :
      Transcribes ok target (.test (.not e span)) ("! " ++ bracedIf (e.needsBraces none) t)

/-! ## What is related is written -/

section Written

variable {ok : String → Prop} {target : Target}

theorem isComparison_of_testOperator {op : BinaryOp} {span : Span} {o : String}
    (h : testOperator op span = .ok o) : op.isComparison = true := by
  cases op <;> first | rfl | cases h

theorem isComparison_of_arithmeticOperator {op : BinaryOp} {span : Span} {o : String}
    (h : arithmeticOperator op target span = .ok o) : op.isComparison = false := by
  cases op <;> first | rfl | cases h

/-- The value of an expression that has a test is the outcome of the test. -/
theorem Expr.text_of_isTest (target : Target) {e : Expr} (he : e.isTest = true) :
    e.text target = (e.condition target).map booleanWord ∧ ∀ t, e.embed t = t := by
  cases e with
  | binary op left right span =>
    have hop : op.isComparison = true := he
    refine ⟨?_, fun _ => rfl⟩
    rw [Expr.text, Expr.condition, if_pos hop, if_pos hop]
  | logical op left right span =>
    refine ⟨?_, fun _ => rfl⟩
    rw [Expr.text, Expr.condition]
    cases left.condition target with
    | error _ => rfl
    | ok l =>
      cases right.condition target with
      | error _ => rfl
      | ok r => rfl
  | not argument span =>
    refine ⟨?_, fun _ => rfl⟩
    rw [Expr.text, Expr.condition]
    cases argument.condition target with
    | error _ => rfl
    | ok t => rfl
  | _ => cases he

theorem Expr.argument_eq_value {e : Expr} (he : e.isBareNumber = false) :
    e.argument target = e.value target := by
  unfold Expr.argument Expr.embedArgument
  split
  · exact if_neg (Bool.eq_false_iff.1 he)
  · rfl

/-- The texts of a list with two members or more. -/
theorem mapM_cons_cons {f : Expr → Except Fault String} {a : String} {e e' : Expr}
    {es : List Expr} {texts : List String} (ha : f e = .ok a) (h : (e' :: es).mapM f = .ok texts) :
    ∃ u us, texts = u :: us ∧ (e :: e' :: es).mapM f = .ok (a :: u :: us) := by
  cases texts with
  | nil => cases length_of_mapM_eq_ok h
  | cons u us =>
    refine ⟨u, us, rfl, ?_⟩
    rw [List.mapM_cons, ha, h]
    rfl

/-- **What is related to an expression is written for it.** -/
theorem Transcribes.text_eq {p : Piece} {text : String} (h : Transcribes ok target p text) :
    p.text target = .ok text := by
  induction h with
  | reference h => rfl
  | @quoted value span h =>
    show (literalText value span).map _ = _
    rw [literalText_eq span h]
    rfl
  | property h =>
    show (memberText _ _ _).map _ = _
    rw [h]
    rfl
  | @arithmetic op left right span l o r ho hl hr ihl ihr =>
    show ((Expr.binary op left right span).text target).map _ = _
    rw [Expr.text, if_neg (by simp [isComparison_of_arithmeticOperator ho])]
    have hleft : (left.text target).map left.embed = .ok l := ihl
    have hright : (right.text target).map right.embed = .ok r := ihr
    rw [Emit.arithmetic, ho, hleft, hright]
    rfl
  | @boolean e t he h ih =>
    obtain ⟨htext, hembed⟩ := Expr.text_of_isTest target he
    have hcondition : e.condition target = .ok t := ih
    show (e.text target).map e.embed = _
    rw [htext, hcondition]
    exact congrArg Except.ok (hembed _)
  | @substitution callee arguments span t h ih =>
    have hcall : Expr.callText callee arguments span (Expr.texts target arguments) = .ok t := ih
    rw [Piece.text, Expr.value, Expr.text, hcall]
    rfl
  | number h => exact if_pos h
  | word he h ih => exact (Expr.argument_eq_value he).trans ih
  | @last e a h ih =>
    have hargument : e.argument target = .ok a := ih
    rw [Piece.text, List.mapM_cons, hargument]
    rfl
  | more ha has iha ihas =>
    obtain ⟨words, hwords, rfl⟩ := map_eq_ok_iff.1 ihas
    obtain ⟨u, us, rfl, hall⟩ := mapM_cons_cons iha hwords
    rw [Piece.text, hall]
    rfl
  | name h => rfl
  | call h has ih =>
    obtain ⟨words, hwords, rfl⟩ := map_eq_ok_iff.1 ih
    rw [Piece.text, Expr.callText_identifier, hwords]
    cases words with
    | nil => cases length_of_mapM_eq_ok hwords
    | cons w ws => rfl
  | echo h =>
    rw [Piece.text, Expr.callText_member, h]
    rfl
  | prints h ht ih =>
    obtain ⟨values, hvalues, rfl⟩ := map_eq_ok_iff.1 ih
    rw [Piece.text, Expr.callText_member, h]
    dsimp only
    rw [hvalues]
    cases values with
    | nil => cases length_of_mapM_eq_ok hvalues
    | cons v vs => rfl
  | @line redirection v e _ hv ih =>
    have hvalue : e.value target = .ok v := ih
    rw [Piece.text, List.mapM_cons, hvalue]
    rfl
  | lines _ hv ht ihv iht =>
    obtain ⟨values, hvalues, rfl⟩ := map_eq_ok_iff.1 iht
    obtain ⟨u, us, rfl, hall⟩ := mapM_cons_cons ihv hvalues
    rw [Piece.text, hall]
    rfl
  | @comparison op left right span l o r ho hl hr ihl ihr =>
    show (Expr.binary op left right span).condition target = _
    rw [Expr.condition, if_pos (isComparison_of_testOperator ho)]
    have hleft : (left.text target).map left.embed = .ok l := ihl
    have hright : (right.text target).map right.embed = .ok r := ihr
    rw [Emit.comparison, ho, hleft, hright]
    rfl
  | @nonzero op left right span v hop h ih =>
    obtain ⟨t, ht, rfl⟩ := map_eq_ok_iff.1 ih
    rw [Expr.text, if_neg (Bool.eq_false_iff.1 hop)] at ht
    show (Expr.binary op left right span).condition target = _
    rw [Expr.condition, if_neg (Bool.eq_false_iff.1 hop), ht]
    rfl
  | referenceTest h => rfl
  | propertyTest h =>
    show (memberText _ _ _).map _ = _
    rw [h]
    rfl
  | constant => rfl
  | status h ih =>
    rw [Piece.text, Expr.condition]
    exact ih
  | @logical op left right span l r hl hr ihl ihr =>
    have hleft : left.condition target = .ok l := ihl
    have hright : right.condition target = .ok r := ihr
    show (Expr.logical op left right span).condition target = _
    rw [Expr.condition, hleft, hright]
    rfl
  | @negated e span t h ih =>
    have hcondition : e.condition target = .ok t := ih
    show (Expr.not e span).condition target = _
    rw [Expr.condition, hcondition]
    rfl

end Written

/-! ## What is written is related -/

section Parts

variable {ok : String → Prop} {target : Target}

theorem transcribes_comparison {op : BinaryOp} {left right : Expr} {span : Span} {text : String}
    (h : comparison op span (left.value target) (right.value target) = .ok text)
    (hleft : ∀ l, left.value target = .ok l → Transcribes ok target (.value left) l)
    (hright : ∀ r, right.value target = .ok r → Transcribes ok target (.value right) r) :
    Transcribes ok target (.test (.binary op left right span)) text := by
  obtain ⟨o, l, r, ho, hl, hr, rfl⟩ := bind₃_eq_ok_iff.1 h
  exact .comparison ho (hleft l hl) (hright r hr)

theorem transcribes_arithmetic {op : BinaryOp} {left right : Expr} {span : Span} {text : String}
    (h : arithmetic target op span (left.value target) (right.value target) = .ok text)
    (hleft : ∀ l, left.value target = .ok l → Transcribes ok target (.value left) l)
    (hright : ∀ r, right.value target = .ok r → Transcribes ok target (.value right) r) :
    Transcribes ok target (.value (.binary op left right span)) text := by
  obtain ⟨o, l, r, ho, hl, hr, rfl⟩ := bind₃_eq_ok_iff.1 h
  exact .arithmetic ho (hleft l hl) (hright r hr)

/-- The value of an expression that has a test, from the test. -/
theorem transcribes_boolean {e : Expr} {v : String} (he : e.isTest = true)
    (htest : ∀ t, e.condition target = .ok t → Transcribes ok target (.test e) t)
    (h : e.value target = .ok v) : Transcribes ok target (.value e) v := by
  obtain ⟨hcondition, hembed⟩ := Expr.text_of_isTest target he
  obtain ⟨text, htext, rfl⟩ := map_eq_ok_iff.1 h
  rw [hcondition] at htext
  obtain ⟨t, ht, rfl⟩ := map_eq_ok_iff.1 htext
  rw [hembed]
  exact .boolean he (htest t ht)

theorem transcribes_argument {e : Expr} {a : String} (h : e.argument target = .ok a)
    (hvalue : ∀ v, e.value target = .ok v → Transcribes ok target (.value e) v) :
    Transcribes ok target (.argument e) a := by
  by_cases hbare : e.isBareNumber = true
  · unfold Expr.isBareNumber at hbare
    split at hbare
    · cases (if_pos hbare).symm.trans h
      exact .number hbare
    · cases hbare
  · have hword := Bool.eq_false_iff.2 hbare
    exact .word hword (hvalue a ((Expr.argument_eq_value hword).symm.trans h))

theorem transcribes_arguments {e : Expr} {es : List Expr} {words : List String}
    (h : (e :: es).mapM (Expr.argument target) = .ok words)
    (hvalue : ∀ a ∈ e :: es, ∀ v, a.value target = .ok v → Transcribes ok target (.value a) v) :
    Transcribes ok target (.arguments (e :: es)) (joinWith " " words) := by
  induction es generalizing e words with
  | nil =>
    rw [List.mapM_cons] at h
    obtain ⟨a, ha, hpure⟩ := bind_eq_ok_iff.1 h
    cases hpure
    exact .last (transcribes_argument ha (hvalue e List.mem_cons_self))
  | cons f es ih =>
    rw [List.mapM_cons] at h
    obtain ⟨a, as, ha, has, rfl⟩ := bind₂_eq_ok_iff.1 h
    rw [List.forall_mem_cons] at hvalue
    have hmore := ih has hvalue.2
    cases as with
    | nil => cases length_of_mapM_eq_ok has
    | cons b bs => exact .more (transcribes_argument ha hvalue.1) hmore

theorem transcribes_prints {redirection : String} {e : Expr} {es : List Expr} {values : List String}
    (hredirection : redirection ∈ redirections)
    (h : (e :: es).mapM (Expr.value target) = .ok values)
    (hvalue : ∀ a ∈ e :: es, ∀ v, a.value target = .ok v → Transcribes ok target (.value a) v) :
    Transcribes ok target (.prints redirection (e :: es))
      (joinWith "\n" (values.map fun v => "echo " ++ v ++ redirection)) := by
  induction es generalizing e values with
  | nil =>
    rw [List.mapM_cons] at h
    obtain ⟨v, hv, hpure⟩ := bind_eq_ok_iff.1 h
    cases hpure
    exact .line hredirection (hvalue e List.mem_cons_self v hv)
  | cons f es ih =>
    rw [List.mapM_cons] at h
    obtain ⟨v, vs, hv, hvs, rfl⟩ := bind₂_eq_ok_iff.1 h
    rw [List.forall_mem_cons] at hvalue
    have hmore := ih hvs hvalue.2
    cases vs with
    | nil => cases length_of_mapM_eq_ok hvs
    | cons u us => exact .lines hredirection (hvalue.1 v hv) hmore

/-- **The command line of a call**, whose callee is a name or a method that
prints. -/
theorem transcribes_callText {callee : Expr} {arguments : List Expr} {span : Span} {text : String}
    (h : Expr.callText callee arguments span (Expr.texts target arguments) = .ok text)
    (hcallee : ∀ x ∈ callee.positions .callee, x.Named ok)
    (hvalue : ∀ e ∈ arguments, ∀ v, e.value target = .ok v → Transcribes ok target (.value e) v) :
    Transcribes ok target (.command callee arguments span) text := by
  cases callee with
  | identifier name s =>
    rw [Expr.callText_identifier] at h
    obtain ⟨words, hwords, rfl⟩ := map_eq_ok_iff.1 h
    have hname : ok name := hcallee _ List.mem_cons_self name (List.mem_singleton_self name)
    cases arguments with
    | nil =>
      cases hwords
      exact .name hname
    | cons e es =>
      have has := transcribes_arguments hwords hvalue
      -- the words are joined to the name only if there are some
      cases words with
      | nil => cases length_of_mapM_eq_ok hwords
      | cons a as => exact .call hname has
  | member object property s =>
    rw [Expr.callText_member] at h
    cases hredirection : redirection? object property with
    | none =>
      rw [hredirection] at h
      cases h
    | some redirection =>
      rw [hredirection] at h
      obtain ⟨values, hvalues, rfl⟩ := map_eq_ok_iff.1 h
      cases arguments with
      | nil =>
        cases hvalues
        exact .echo hredirection
      | cons e es =>
        have ht := transcribes_prints (mem_redirections hredirection) hvalues hvalue
        cases values with
        | nil => cases length_of_mapM_eq_ok hvalues
        | cons v vs => exact .prints hredirection ht
  | _ => cases h

end Parts

namespace Expr

variable {ok : String → Prop} {target : Target}

/-- **Whatever is written for an expression is related to it.** -/
theorem transcribes (target : Target) (e : Expr) :
    ∀ role, (∀ x ∈ e.positions role, x.Named ok) →
      (∀ v, e.value target = .ok v → Transcribes ok target (.value e) v)
        ∧ ∀ t, e.condition target = .ok t → Transcribes ok target (.test e) t := by
  induction e using Expr.induction_on with
  | identifier name span =>
    intro role h
    have hname : ok name := h _ List.mem_cons_self name (List.mem_singleton_self name)
    refine ⟨fun v hv => ?_, fun t ht => ?_⟩
    · cases hv
      exact .reference hname
    · cases ht
      exact .referenceTest hname
  | literal value span =>
    intro role _
    refine ⟨fun v hv => ?_, fun t ht => ?_⟩
    · obtain ⟨text, htext, rfl⟩ := map_eq_ok_iff.1 hv
      have hplain := (accepted_literalText value span).1 ⟨text, htext⟩
      cases htext.symm.trans (literalText_eq span hplain)
      exact .quoted hplain
    · cases ht
      exact .constant
  | binary op left right span ihl ihr =>
    intro role h
    rw [positions_binary, List.forall_mem_cons, List.forall_mem_append] at h
    have hleft := (ihl .value h.2.1).1
    have hright := (ihr .value h.2.2).1
    by_cases hop : op.isComparison = true
    · have htest : ∀ t, (binary op left right span).condition target = .ok t →
          Transcribes ok target (.test (.binary op left right span)) t := by
        intro t ht
        rw [condition, if_pos hop] at ht
        exact transcribes_comparison ht hleft hright
      exact ⟨fun v => transcribes_boolean hop htest, htest⟩
    · refine ⟨fun v hv => ?_, fun t ht => ?_⟩
      · obtain ⟨text, htext, rfl⟩ := map_eq_ok_iff.1 hv
        rw [Expr.text, if_neg hop] at htext
        exact transcribes_arithmetic htext hleft hright
      · rw [condition, if_neg hop] at ht
        obtain ⟨number, hnumber, rfl⟩ := map_eq_ok_iff.1 ht
        exact .nonzero (Bool.eq_false_iff.2 hop) (transcribes_arithmetic hnumber hleft hright)
  | logical op left right span ihl ihr =>
    intro role h
    rw [positions_logical, List.forall_mem_cons, List.forall_mem_append] at h
    have htest : ∀ t, (logical op left right span).condition target = .ok t →
        Transcribes ok target (.test (.logical op left right span)) t := by
      intro t ht
      rw [condition] at ht
      obtain ⟨l, r, hl, hr, rfl⟩ := bind₂_eq_ok_iff.1 ht
      exact .logical ((ihl .condition h.2.1).2 l hl) ((ihr .condition h.2.2).2 r hr)
    exact ⟨fun v => transcribes_boolean rfl htest, htest⟩
  | not argument span ih =>
    intro role h
    rw [positions_not, List.forall_mem_cons] at h
    have htest : ∀ t, (not argument span).condition target = .ok t →
        Transcribes ok target (.test (.not argument span)) t := by
      intro t ht
      rw [condition] at ht
      obtain ⟨inner, hinner, hpure⟩ := bind_eq_ok_iff.1 ht
      cases hpure
      exact .negated ((ih .condition h.2).2 inner hinner)
    exact ⟨fun v => transcribes_boolean rfl htest, htest⟩
  | call callee arguments span _ iha =>
    intro role h
    rw [positions_call, List.forall_mem_cons, List.forall_mem_append] at h
    have hvalue : ∀ e ∈ arguments, ∀ v, e.value target = .ok v →
        Transcribes ok target (.value e) v :=
      fun e he => (iha e he .value fun x hx => h.2.2 x (positions_subset_partsAll he hx)).1
    refine ⟨fun v hv => ?_, fun t ht => ?_⟩
    · obtain ⟨text, htext, rfl⟩ := map_eq_ok_iff.1 hv
      rw [Expr.text] at htext
      exact .substitution (transcribes_callText htext h.2.1 hvalue)
    · rw [condition] at ht
      exact .status (transcribes_callText ht h.2.1 hvalue)
  | member object property span _ =>
    intro role _
    refine ⟨fun v hv => ?_, fun t ht => ?_⟩
    · obtain ⟨text, htext, rfl⟩ := map_eq_ok_iff.1 hv
      exact .property htext
    · rw [condition] at ht
      obtain ⟨word, hword, rfl⟩ := map_eq_ok_iff.1 ht
      exact .propertyTest hword
  | metaProperty owner own span =>
    intro role _
    refine ⟨fun v hv => ?_, fun t ht => ?_⟩
    · cases hv
    · cases ht
  | unsupported kind span =>
    intro role _
    refine ⟨fun v hv => ?_, fun t ht => ?_⟩
    · cases hv
    · cases ht

/-- A call as a command of its own. -/
theorem transcribes_call {callee : Expr} {arguments : List Expr} {span : Span} {role : Role}
    (h : ∀ x ∈ (call callee arguments span).positions role, x.Named ok) {t : String}
    (ht : (call callee arguments span).text target = .ok t) :
    Transcribes ok target (.command callee arguments span) t := by
  rw [positions_call, List.forall_mem_cons, List.forall_mem_append] at h
  rw [Expr.text] at ht
  exact transcribes_callText ht h.2.1 fun e he =>
    (e.transcribes target .value fun x hx => h.2.2 x (positions_subset_partsAll he hx)).1

/-- **The condition of an expression**, whose names are of a kind. -/
theorem transcribes_condition {e : Expr} (h : ∀ name ∈ e.names, ok name) {t : String}
    (ht : e.condition target = .ok t) : Transcribes ok target (.test e) t :=
  (e.transcribes target .value (Expr.forall_names.1 h)).2 t ht

end Expr

end ScriptToShell
