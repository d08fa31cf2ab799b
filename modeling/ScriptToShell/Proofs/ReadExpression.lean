import ScriptToShell.Grammar.Expression
import ScriptToShell.Proofs.ReadPart

/-!
# Expressions that are read in tandem

With readers that agree for what they contain, the rules for primary
expressions, operands and expressions are in tandem with themselves. What they
give stands where it was read: an operation from its first operand to its last,
a call from what is called to the parenthesis behind the arguments.
-/

namespace ScriptToShell.Grammar

open Scan

variable {text : List Char} {shift depth i start : Nat} {R R' : Readers}

/-! ## Primary expressions -/

/-- An operand that is made at the place of the reader. -/
theorem tandem_operandFrom {first count : Nat} (form : Form) {make make' : Span → Expr}
    (hcount : first + count ≤ i)
    (h : Twin text shift start (make (spanAt text start i))
      (make' ((spanAt text start i).moved shift)) i) :
    Tandem text shift i (operandFrom (offsetAt text start) form make)
      (operandFrom (offsetAt text start + shift) form make')
      (Past first count (OperandTwin text shift start)) :=
  tandem_spanFrom (.pure ⟨hcount, rfl, h⟩)

theorem tandem_leafFrom {first count : Nat} (form : Form) {make : Span → Expr} (h : IsLeaf make)
    (hcount : first + count ≤ i) (hstart : start ≤ i) :
    Tandem text shift i (operandFrom (offsetAt text start) form make)
      (operandFrom (offsetAt text start + shift) form make)
      (Past first count (OperandTwin text shift start)) :=
  tandem_operandFrom form hcount (h.twin hstart)

theorem tandem_unsupportedFrom {first count : Nat} (kind : NodeKind) (hcount : first + count ≤ i)
    (hstart : start ≤ i) :
    Tandem text shift i (unsupportedFrom kind (offsetAt text start))
      (unsupportedFrom kind (offsetAt text start + shift))
      (Past first count (OperandTwin text shift start)) :=
  tandem_leafFrom .other (Expr.isLeaf_unsupported kind) hcount hstart

variable (hR : R.Agree text shift depth R')
include hR

theorem tandem_functionExpression (hi : text.length ≤ i + depth + 1) :
    Tandem text shift i (functionExpression R) (functionExpression R') (Same i 1) := by
  refine tandem_gap.next fun _ j hj =>
    (tandem_literal "*" (by decide)).option_same.next fun _ l hl => ?_
  refine tandem_gap.next fun _ m hm => tandem_name.option_same.next fun _ n hn => ?_
  exact (tandem_functionRest hR false (by omega)).discard_past (by omega)

theorem tandem_nameAlone (hi : text.length ≤ i + depth + 1) :
    Tandem text shift i (nameAlone R) (nameAlone R') (Same i 1) := by
  refine tandem_name.next fun _ j hj => ((tandem_symbol "," (by decide)).since (by omega)).orElse ?_
  have hdefault := (tandem_initializer hR true (i := j) (by omega)).ends (Nat.le_add_right j 1)
  refine hdefault.option_ends.bind fun _ _ l hl => ?_
  exact (tandem_symbol _ (by decide)).since (by omega)

theorem tandem_looksLikeObject (hi : text.length ≤ i + depth + 1) :
    Tandem text shift i (looksLikeObject R) (looksLikeObject R') (Stays i) := by
  refine Tandem.sees (P := Same i 1) ?_
  refine (tandem_literal _ (by decide)).next fun _ j hj => tandem_gap.next fun _ l hl =>
    (tandem_nameAlone hR (by omega)).refuse.peek fun _ => .ahead ?_
  cases headName? (text.drop l) with
  | some word => exact (Tandem.require _).stays (by omega)
  | none => exact .pure ⟨rfl, by omega⟩

theorem tandem_arrowRest (semi : Bool)
    (hi : text.length ≤ i + depth + 1) :
    Tandem text shift i (arrowRest R semi) (arrowRest R' semi) (Same i 1) := by
  refine (tandem_symbol "=>" (by decide)).next fun _ j hj =>
    tandem_gap.next fun _ l hl => .orElse ?_ ?_
  · exact (tandem_block hR false (by omega)).discard_past (by omega)
  · have hbody : Tandem text shift l
        (do let _ ← R.assignment semi)
        (do let _ ← R'.assignment semi) (Same i 1) :=
      (hR.expression semi 0 l (by omega)).discard_past (by omega)
    refine .ahead (.ite (fun _ => ?_) fun _ => hbody)
    exact (tandem_looksLikeObject hR (by omega)).peek fun b =>
      (Tandem.require b).peek fun _ => hbody

theorem tandem_arrow (semi : Bool)
    (hi : text.length ≤ i + depth + 1) :
    Tandem text shift i (arrow R semi) (arrow R' semi) (Same i 1) := by
  refine (tandem_parameters hR hi).bind fun _ _ j ⟨hj, _⟩ => ?_
  exact (tandem_arrowRest hR semi (by omega)).since (by omega)

/-- Parentheses, or an arrow with parameters. -/
theorem tandem_parenthesizedOrArrow (semi : Bool)
    (hi : text.length ≤ i + depth + 1) :
    Tandem text shift i (parenthesizedOrArrow R semi) (parenthesizedOrArrow R' semi)
      (Past i 1 (OperandTwin text shift i)) := by
  have harrow : ∀ j, Tandem text shift j
      (do
        set (Cursor.at text i)
        arrow R semi
        unsupportedFrom .arrowFunctionExpression (Cursor.at text i).pos)
      (do
        set ((Cursor.at text i).moved shift)
        arrow R' semi
        unsupportedFrom .arrowFunctionExpression ((Cursor.at text i).moved shift).pos)
      (Past i 1 (OperandTwin text shift i)) := fun j =>
    .goTo ((tandem_arrow hR semi hi).next fun _ l hl =>
      tandem_unsupportedFrom _ (by omega) (by omega))
  refine .here ((tandem_parenthesized hR hi).option.bind fun inner inner' j hinner => ?_)
  refine (tandem_symbol "=>" (by decide)).sees.peek fun isArrow => ?_
  cases hinner with
  | none => exact harrow i
  | some h =>
    cases isArrow with
    | true => exact harrow j
    | false => exact .pure ⟨h.1, rfl, h.2⟩

theorem tandem_literalOrPattern (semi : Bool) (kind : NodeKind)
    {literal literal' pattern pattern' : Reader Unit}
    (hliteral : Tandem text shift i literal literal' (Same i 1))
    (hpattern : Tandem text shift i pattern pattern' (Same i 1))
    (hi : text.length ≤ i + depth + 1) :
    Tandem text shift i (literalOrPattern R semi kind literal pattern)
      (literalOrPattern R' semi kind literal' pattern') (Past i 1 (OperandTwin text shift i)) := by
  refine .pos (.orElse ?_ ?_)
  · refine hliteral.next fun _ j hj => tandem_equalsSign.refuse.peek fun _ => ?_
    exact tandem_unsupportedFrom _ hj (by omega)
  · refine hpattern.next fun _ j hj => tandem_equalsSign.next fun _ l hl => ?_
    refine tandem_gap.next fun _ m hm => ?_
    refine (hR.expression semi 0 m (by omega)).bind fun _ _ n ⟨hn, _⟩ => ?_
    exact tandem_unsupportedFrom _ (by omega) (by omega)

theorem tandem_asyncRest (semi : Bool)
    (hstart : start + 1 ≤ i) (hi : text.length ≤ i + depth) :
    Tandem text shift i (asyncRest R semi (offsetAt text start))
      (asyncRest R' semi (offsetAt text start + shift))
      (Past start 1 (OperandTwin text shift start)) := by
  have hplain : Tandem text shift i
      (return ⟨.identifier "async" (spanAt text start i), .name⟩ : Reader Operand)
      (return ⟨.identifier "async" ((spanAt text start i).moved shift), .name⟩ : Reader Operand)
      (Past start 1 (OperandTwin text shift start)) :=
    .pure ⟨hstart, rfl, (Expr.isLeaf_identifier "async").twin (by omega)⟩
  refine tandem_spanFrom ((tandem_atSupplied false).peek fun _ =>
    .ite (fun _ => hplain) fun _ => ?_)
  refine .orElse ?_ (.orElse ?_ (.orElse ?_ (.orElse ?_ hplain)))
  · refine tandem_trivia.next fun _ j hj => (tandem_keyword _).next fun _ l hl => ?_
    refine (tandem_functionExpression hR (by omega)).next fun _ m hm => ?_
    exact tandem_unsupportedFrom _ (by omega) (by omega)
  · refine tandem_trivia.next fun _ j hj => tandem_name.next fun word l hl => ?_
    refine (Tandem.require _).peek fun _ => ?_
    refine (tandem_arrowRest hR semi (by omega)).next fun _ m hm => ?_
    exact tandem_unsupportedFrom _ (by omega) (by omega)
  · refine tandem_trivia.next fun _ j hj => (tandem_arrow hR semi (by omega)).next fun _ l hl => ?_
    exact tandem_unsupportedFrom _ (by omega) (by omega)
  · refine (tandem_arrowRest hR semi (by omega)).next fun _ j hj => ?_
    exact tandem_unsupportedFrom _ (by omega) (by omega)

omit hR in
theorem tandem_metaProperty {first count : Nat} (hcount : first + count ≤ i) (hstart : start ≤ i) :
    Tandem text shift i (metaProperty (.at text start))
      (metaProperty ((Cursor.at text start).moved shift))
      (Past first count (OperandTwin text shift start)) :=
  .here (tandem_leafFrom .other (Expr.isLeaf_metaProperty _ _) hcount hstart)

theorem tandem_importRest (hstart : start + 1 ≤ i)
    (hi : text.length ≤ i + depth) :
    Tandem text shift i (importRest R (.at text start))
      (importRest R' ((Cursor.at text start).moved shift))
      (Past start 1 (OperandTwin text shift start)) := by
  refine .orElse ?_ (tandem_spanFrom ?_)
  · refine tandem_gap.next fun _ j hj => ?_
    refine (tandem_arguments hR (by omega)).bind fun _ _ l ⟨hl, _⟩ => ?_
    exact tandem_unsupportedFrom _ (by omega) (by omega)
  · refine (tandem_nextSymbol "." (by decide)).next fun _ j hj => tandem_gap.next fun _ l hl => ?_
    refine tandem_name.next fun word m hm => .ite (fun _ => ?_) fun _ => ?_
    · exact tandem_metaProperty (by omega) (by omega)
    · refine tandem_operandFrom .member (by omega) (.of_row (.member (.unsupported rfl) rfl) rfl ?_)
      have hobject : (Node.expression
          (.unsupported (.unrecognized "import") (spanAt text start i))).Between text start i :=
        .leaf rfl (by omega) rfl
      exact .single (hobject.widen (Nat.le_refl start) (by omega))

theorem tandem_privateIn (semi : Bool)
    (hi : text.length ≤ i + depth + 1) :
    Tandem text shift i (privateIn R semi) (privateIn R' semi)
      (Past i 1 (OperandTwin text shift i)) := by
  refine .pos (tandem_privateName.next fun _ j hj => tandem_spanFrom ?_)
  refine tandem_trivia.next fun _ l hl => (tandem_keyword _).next fun _ m hm => ?_
  refine tandem_gap.next fun _ n hn => ?_
  refine (hR.expression semi 9 n (by omega)).bind fun right right' p ⟨hp, hright⟩ => ?_
  refine tandem_operandFrom .other (by omega)
    (.of_row (.binary (.unsupported rfl) hright.expr.alike rfl) rfl ?_)
  exact .pair (.leaf rfl (by omega) rfl) (by omega) hright.expr.between

/-- A name, or what starts with a word. -/
theorem tandem_wordOperand (semi : Bool)
    (hi : text.length ≤ i + depth + 1) :
    Tandem text shift i (wordOperand R semi) (wordOperand R' semi)
      (Past i 1 (OperandTwin text shift i)) := by
  refine .here (tandem_name.next fun word j hj => ?_)
  have hij : i ≤ j := by omega
  split
  · exact tandem_leafFrom .other (Expr.isLeaf_literal _) hj hij
  · exact tandem_leafFrom .other (Expr.isLeaf_literal _) hj hij
  · exact tandem_leafFrom .other (Expr.isLeaf_literal _) hj hij
  · exact tandem_unsupportedFrom _ hj hij
  · exact tandem_unsupportedFrom _ hj hij
  · exact tandem_leafFrom .name (Expr.isLeaf_identifier _) hj hij
  · refine (tandem_functionExpression hR (by omega)).next fun _ l hl => ?_
    exact tandem_unsupportedFrom _ (by omega) (by omega)
  · refine (tandem_classRest hR (by omega)).next fun _ l hl => ?_
    exact tandem_unsupportedFrom _ (by omega) (by omega)
  · exact tandem_importRest hR hj (by omega)
  · exact tandem_asyncRest hR semi hj (by omega)
  · refine (Tandem.require _).peek fun _ => ?_
    refine (tandem_leafFrom .name (Expr.isLeaf_identifier word) hj hij).bind fun o o' l ho => ?_
    have hl := ho.1
    refine .orElse ((tandem_arrowRest hR semi (by omega)).next fun _ m hm => ?_) (.pure ho)
    exact tandem_unsupportedFrom _ (by omega) (by omega)

/-- Primary expressions. -/
theorem tandem_primary (semi : Bool)
    (hi : text.length ≤ i + depth + 1) :
    Tandem text shift i (primary R semi) (primary R' semi)
      (Past i 1 (OperandTwin text shift i)) := by
  refine .pos (.ahead ?_)
  split
  · exact tandem_parenthesizedOrArrow hR semi hi
  · refine tandem_literalOrPattern hR semi _ ?_ (tandem_arrayPattern hR hi) hi
    exact (tandem_items hR "[" "]" (by decide) (by decide) hi).discard_past (Nat.le_refl _)
  · exact tandem_literalOrPattern hR semi _ (tandem_object hR hi) (tandem_objectPattern hR hi) hi
  · exact tandem_string.next fun value j hj =>
      tandem_leafFrom .other (Expr.isLeaf_literal _) hj (by omega)
  · exact tandem_string.next fun value j hj =>
      tandem_leafFrom .other (Expr.isLeaf_literal _) hj (by omega)
  · exact (tandem_template hR hi).next fun _ j hj => tandem_unsupportedFrom _ hj (by omega)
  · exact (tandem_token regex?_takes).next fun _ j hj => tandem_unsupportedFrom _ hj (by omega)
  · exact (hR.element i hi).next fun _ j hj => tandem_unsupportedFrom _ hj (by omega)
  · exact tandem_privateIn hR semi hi
  · refine (tandem_decorators hR hi).next fun _ j hj => (tandem_keyword _).next fun _ l hl => ?_
    refine (tandem_classRest hR (by omega)).next fun _ m hm => ?_
    exact tandem_unsupportedFrom _ (by omega) (by omega)
  · refine .ite (fun _ => ?_) fun _ => tandem_wordOperand hR semi hi
    exact (tandem_token number?_takes).next fun text j hj =>
      tandem_leafFrom .other (Expr.isLeaf_literal _) hj (by omega)
  · exact .failure

/-! ## Operands with their suffixes -/

omit hR in
theorem OperandTwin.widen {o o' : Operand} {j j' : Nat} (h : OperandTwin text shift i o o' j)
    (hj : j ≤ j') : OperandTwin text shift i o o' j' :=
  ⟨h.form, h.expr.widen (Nat.le_refl i) hj⟩

omit hR in
theorem tandem_propertyAccess {object object' : Expr}
    (h : Twin text shift start object object' i) :
    Tandem text shift i (propertyAccess (offsetAt text start) object)
      (propertyAccess (offsetAt text start + shift) object')
      (Past i 1 (OperandTwin text shift start)) := by
  have hstart := h.between.le
  refine tandem_gap.next fun _ j hj => .orElse ?_ ?_
  · refine tandem_privateName.next fun _ l hl => ?_
    exact tandem_leafFrom .member (Expr.isLeaf_unsupported _) (by omega) (by omega)
  · refine tandem_name.next fun name l hl => tandem_operandFrom .member (by omega) ?_
    refine .of_row (.member h.alike rfl) rfl ?_
    exact .single (h.between.widen (Nat.le_refl start) (by omega))

theorem tandem_subscript (hstart : start ≤ i)
    (hi : text.length ≤ i + depth + 1) :
    Tandem text shift i (subscript R (offsetAt text start))
      (subscript R' (offsetAt text start + shift)) (Past i 1 (OperandTwin text shift start)) := by
  refine (tandem_literal "[" (by decide)).next fun _ j hj => tandem_gap.next fun _ l hl => ?_
  refine (tandem_expressions hR false (by omega)).bind fun _ _ m ⟨hm, _⟩ => ?_
  refine (tandem_symbol "]" (by decide)).next fun _ n hn => ?_
  exact tandem_leafFrom .subscript (Expr.isLeaf_unsupported _) (by omega) (by omega)

theorem tandem_optionalSuffix {o o' : Operand}
    (ho : OperandTwin text shift start o o' i) (hi : text.length ≤ i + depth + 1) :
    Tandem text shift i (optionalSuffix R (offsetAt text start) o)
      (optionalSuffix R' (offsetAt text start + shift) o')
      (Past i 1 (OperandTwin text shift start)) := by
  have hstart := ho.expr.between.le
  refine tandem_gap.next fun _ j hj => .orElse ?_ (.orElse ?_ ?_)
  · refine (tandem_arguments hR (by omega)).bind fun _ _ l ⟨hl, _⟩ => ?_
    exact tandem_unsupportedFrom _ (by omega) (by omega)
  · exact (tandem_subscript hR (by omega) (by omega)).past (by omega)
  · refine (tandem_propertyAccess (ho.expr.widen (Nat.le_refl start) hj)).bind
      fun _ _ l ⟨hl, _⟩ => ?_
    exact tandem_leafFrom .member (Expr.isLeaf_unsupported _) (by omega) (by omega)

theorem tandem_accessSuffix {o o' : Operand}
    (ho : OperandTwin text shift start o o' i) (hi : text.length ≤ i + depth + 1) :
    Tandem text shift i (accessSuffix R (offsetAt text start) o)
      (accessSuffix R' (offsetAt text start + shift) o')
      (Past i 1 (OperandTwin text shift start)) := by
  have hstart := ho.expr.between.le
  refine tandem_trivia.next fun _ j hj => .ahead ?_
  split
  · refine (tandem_literal "." (by decide)).next fun _ l hl => ?_
    exact (tandem_propertyAccess (ho.expr.widen (Nat.le_refl start) (by omega))).past (by omega)
  · exact (tandem_subscript hR (by omega) (by omega)).past (by omega)
  · refine (Tandem.require _).peek fun _ => (tandem_literal "?." (by decide)).next fun _ l hl => ?_
    exact (tandem_optionalSuffix hR (ho.widen (by omega)) (by omega)).past (by omega)
  · refine (tandem_template hR (by omega)).next fun _ l hl => ?_
    exact tandem_unsupportedFrom _ (by omega) (by omega)
  · exact .failure

theorem tandem_callSuffix (semi : Bool) {o o' : Operand}
    (ho : OperandTwin text shift start o o' i) (hi : text.length ≤ i + depth + 1) :
    Tandem text shift i (callSuffix R semi (offsetAt text start) o)
      (callSuffix R' semi (offsetAt text start + shift) o')
      (Past i 1 (OperandTwin text shift start)) := by
  have hstart := ho.expr.between.le
  refine .peekIf (tandem_atSupplied false) fun supplied =>
    tandem_trivia.next fun _ j hj => .ahead ?_
  split
  · refine (tandem_arguments hR (by omega)).bind fun args args' l ⟨hl, hargs⟩ => ?_
    refine tandem_operandFrom .other (by omega) ?_
    refine .of_row (.call ho.expr.alike hargs.alike rfl) rfl ?_
    exact .cons (ho.expr.between.widen (Nat.le_refl start) hj) hargs.row
  · refine (Tandem.require _).peek fun _ => (tandem_take 2).next fun _ l hl => ?_
    exact tandem_unsupportedFrom _ (by omega) (by omega)
  · refine (Tandem.require _).peek fun _ => (tandem_take 2).next fun _ l hl => ?_
    exact tandem_unsupportedFrom _ (by omega) (by omega)
  · exact .failure

omit hR in
/-- **Suffixes are in tandem** if each of them is. -/
theorem tandem_suffixes {suffix suffix' : Operand → Reader Operand} {o o' : Operand}
    (h : ∀ j o o', i ≤ j → OperandTwin text shift start o o' j →
      Tandem text shift j (suffix o) (suffix' o') (Past j 1 (OperandTwin text shift start)))
    (ho : OperandTwin text shift start o o' i) :
    Tandem text shift i (suffixes suffix o) (suffixes suffix' o')
      (Past i 0 (OperandTwin text shift start)) := by
  refine .ahead ?_
  generalize (text.drop i).length = limit
  induction limit generalizing i o o' with
  | zero => exact .pure ⟨Nat.le_refl i, ho⟩
  | succ limit ih =>
    refine .orElse ((h i o o' (Nat.le_refl i) ho).bind fun next next' j ⟨hj, hnext⟩ => ?_)
      (.pure ⟨Nat.le_refl i, ho⟩)
    exact (ih (fun l o o' hl => h l o o' (by omega)) hnext).past (by omega)

/-- Arguments that may be missing, once for each value of a list. -/
theorem tandem_manyArguments {α : Type} (values : List α)
    (hi : text.length ≤ i + depth + 1) :
    Tandem text shift i
      (values.mapM fun _ => Reader.option do
        Reader.trivia
        arguments R)
      (values.mapM fun _ => Reader.option do
        Reader.trivia
        arguments R') (Ends i) := by
  induction values generalizing i with
  | nil => exact .pure (Nat.le_refl i)
  | cons _ values ih =>
    rw [List.mapM_cons, List.mapM_cons]
    refine (tandem_optionalArguments hR hi).bind fun _ _ j hj => ?_
    exact (ih (by omega)).bind fun _ _ l hl => .pure (by omega)

theorem tandem_newOperand (semi : Bool)
    (hi : text.length ≤ i + depth + 1) :
    Tandem text shift i (newOperand R semi) (newOperand R' semi)
      (Past i 1 (OperandTwin text shift i)) := by
  refine .here ((tandem_keyword "new").next fun _ j hj => .orElse ?_ ?_)
  · refine (tandem_nextSymbol "." (by decide)).next fun _ l hl =>
      (tandem_nextKeyword _).next fun _ m hm => ?_
    exact tandem_metaProperty (by omega) (by omega)
  · refine (Tandem.many_same fun l hl => ?_).next fun more l hl => ?_
    · refine (tandem_nextKeyword "new").next fun _ m hm => ?_
      exact (tandem_nextSymbol "." (by decide)).refuse.stays (by omega)
    refine tandem_gap.next fun _ m hm => .pos (.ahead (.ite (fun _ => .failure) fun _ => ?_))
    refine (tandem_primary hR semi (by omega)).bind fun o o' n ⟨hn, ho⟩ => ?_
    refine (tandem_suffixes (fun p o o' hp ho => ?_) ho).bind fun _ _ p ⟨hp, _⟩ => ?_
    · exact tandem_accessSuffix hR ho (by omega)
    refine (tandem_optionalArguments hR (by omega)).bind fun _ _ q hq => ?_
    refine (tandem_manyArguments hR more (by omega)).bind fun _ _ u hu => ?_
    exact tandem_unsupportedFrom _ (by omega) (by omega)

/-- Primary expressions with their suffixes. -/
theorem tandem_suffixed (semi : Bool)
    (hi : text.length ≤ i + depth + 1) :
    Tandem text shift i (suffixed R semi) (suffixed R' semi)
      (Past i 1 (OperandTwin text shift i)) := by
  have hsuffixes : ∀ j o o', i + 1 ≤ j → OperandTwin text shift i o o' j → Tandem text shift j
      (suffixes (fun o => accessSuffix R (offsetAt text i) o <|>
        callSuffix R semi (offsetAt text i) o) o)
      (suffixes (fun o => accessSuffix R' (offsetAt text i + shift) o <|>
        callSuffix R' semi (offsetAt text i + shift) o) o')
      (Past i 1 (OperandTwin text shift i)) := by
    intro j o o' hj ho
    refine (tandem_suffixes (fun l o o' hl ho => .orElse ?_ ?_) ho).past (by omega)
    · exact tandem_accessSuffix hR ho (by omega)
    · exact tandem_callSuffix hR semi ho (by omega)
  refine .pos (.ahead (.ite (fun _ => ?_) fun _ => ?_))
  · exact (tandem_newOperand hR semi hi).bind fun o o' j ⟨hj, ho⟩ => hsuffixes j o o' hj ho
  · exact (tandem_primary hR semi hi).bind fun o o' j ⟨hj, ho⟩ => hsuffixes j o o' hj ho

/-! ## Prefix operators and assignments -/

omit hR in
theorem tandem_compoundSign : Tandem text shift i compoundSign compoundSign (Same i 0) := by
  refine tandem_trivia.next fun _ j hj => .ahead ?_
  cases hfound : compoundSymbols.find? (·.toList.isPrefixOf (text.drop j)) with
  | none => exact .failure
  | some symbol =>
    have hsymbol : symbol ≠ "" := by
      rintro rfl
      exact absurd (List.mem_of_find?_eq_some hfound) (by decide)
    exact (tandem_literal symbol hsymbol).since (by omega)

theorem tandem_assigned (semi : Bool) {o o' : Operand}
    (ho : OperandTwin text shift start o o' i) (hstart : start + 1 ≤ i)
    (hi : text.length ≤ i + depth) :
    Tandem text shift i (assigned R semi (offsetAt text start) o)
      (assigned R' semi (offsetAt text start + shift) o')
      (Past start 1 (OperandTwin text shift start)) := by
  unfold assigned
  rw [ho.form]
  refine .ite (fun _ => .pure ⟨hstart, ho⟩) fun _ => .orElse ?_ (.pure ⟨hstart, ho⟩)
  have hsign : Tandem text shift i (equalsSign <|> compoundSign) (equalsSign <|> compoundSign)
      (Same i 0) := (tandem_equalsSign.since (by omega)).orElse tandem_compoundSign
  refine hsign.next fun _ j hj => tandem_gap.next fun _ l hl => ?_
  refine (hR.expression semi 0 l (by omega)).bind fun _ _ m ⟨hm, _⟩ => ?_
  exact tandem_unsupportedFrom _ (by omega) (by omega)

omit hR in
/-- Whether a number is written without a sign does not depend on its place. -/
theorem plainNumber?_eq_of_alike {e e' : Expr} (h : e.Alike (.moved shift) e') (offset : Nat) :
    plainNumber? (offset + shift) e' = plainNumber? offset e := by
  cases h with
  | @literal value s s' hs =>
    cases value with
    | number text =>
      rw [show s' = s.moved shift from hs]
      simp [plainNumber?, Span.moved]
    | string | boolean | null => rfl
  | identifier | binary | logical | not | call | member | metaProperty | unsupported => rfl

/-- A prefix operator and its operand. -/
theorem tandem_prefixed (semi : Bool) {operator : Reader Unit}
    (hoperator : Tandem text shift i operator operator (Same i 1)) (isNot isMinus : Bool)
    (hi : text.length ≤ i + depth + 1) :
    Tandem text shift i (prefixed R semi operator isNot isMinus)
      (prefixed R' semi operator isNot isMinus) (Past i 1 (OperandTwin text shift i)) := by
  refine .pos (hoperator.next fun _ j hj => tandem_gap.next fun _ l hl => .pos ?_)
  refine (hR.operand semi l (by omega)).bind fun o o' m ⟨hm, ho⟩ => .ite (fun _ => ?_) fun _ => ?_
  · refine tandem_operandFrom .other (by omega) (.of_row (.not ho.expr.alike rfl) rfl ?_)
    exact .single (ho.expr.between.widen (by omega) (Nat.le_refl m))
  · rw [plainNumber?_eq_of_alike ho.expr.alike]
    split
    · exact tandem_leafFrom .other (Expr.isLeaf_literal _) (by omega) (by omega)
    · exact tandem_unsupportedFrom _ (by omega) (by omega)

theorem tandem_yieldRest (semi : Bool)
    (hi : text.length ≤ i + depth) :
    Tandem text shift i (yieldRest R semi) (yieldRest R' semi) (Same i 0) := by
  refine (tandem_atSupplied false).peek fun b =>
    .ite (fun _ => .pure ⟨rfl, Nat.le_refl i⟩) fun _ => ?_
  have hvalue : Tandem text shift i
      (do
        let _ ← Reader.option (symbol "*")
        Reader.trivia
        R.assignment semi)
      (do
        let _ ← Reader.option (symbol "*")
        Reader.trivia
        R'.assignment semi) (Ends i) := by
    refine (tandem_symbol "*" (by decide)).option_same.next fun _ j hj =>
      tandem_trivia.next fun _ l hl => ?_
    exact (hR.expression semi 0 l (by omega)).ends (by omega)
  exact hvalue.option_ends.discard fun _ _ _ h => h

/-- Operands. -/
theorem tandem_operandRule (semi : Bool)
    (hi : text.length ≤ i + depth + 1) :
    Tandem text shift i (operandRule R semi) (operandRule R' semi)
      (Past i 1 (OperandTwin text shift i)) := by
  have hupdate : Tandem text shift i
      (do
        let _ ← Reader.take 2
        Reader.gap
        let _ ← R.operand semi
        unsupportedFrom .updateExpression (offsetAt text i))
      (do
        let _ ← Reader.take 2
        Reader.gap
        let _ ← R'.operand semi
        unsupportedFrom .updateExpression (offsetAt text i + shift))
      (Past i 1 (OperandTwin text shift i)) := by
    refine (tandem_take 2).next fun _ j hj => tandem_gap.next fun _ l hl => ?_
    refine (hR.operand semi l (by omega)).bind fun _ _ m ⟨hm, _⟩ => ?_
    exact tandem_unsupportedFrom _ (by omega) (by omega)
  refine .pos (.ahead ?_)
  split
  · exact tandem_prefixed hR semi (tandem_literal "!" (by decide)) true false hi
  · exact tandem_prefixed hR semi (tandem_literal "~" (by decide)) false false hi
  · exact hupdate
  · exact hupdate
  · exact tandem_prefixed hR semi (tandem_literal "+" (by decide)) false false hi
  · exact tandem_prefixed hR semi (tandem_literal "-" (by decide)) false true hi
  · split
    · exact tandem_prefixed hR semi (tandem_keyword _) false false hi
    · exact tandem_prefixed hR semi (tandem_keyword _) false false hi
    · exact tandem_prefixed hR semi (tandem_keyword _) false false hi
    · refine (tandem_keyword _).next fun _ j hj => tandem_gap.next fun _ l hl => ?_
      refine (hR.operand semi l (by omega)).bind fun _ _ m ⟨hm, _⟩ => ?_
      exact tandem_unsupportedFrom _ (by omega) (by omega)
    · refine (tandem_keyword _).next fun _ j hj => ?_
      refine (tandem_yieldRest hR semi (by omega)).next fun _ l hl => ?_
      exact tandem_unsupportedFrom _ (by omega) (by omega)
    · refine (tandem_suffixed hR semi hi).bind fun o o' j ⟨hj, ho⟩ => ?_
      exact tandem_assigned hR semi ho hj (by omega)

/-! ## Operators between operands -/

omit hR in
theorem tandem_connective (bound : Nat) :
    Tandem text shift i (connective bound) (connective bound) (Same i 0) := by
  refine tandem_trivia.next fun _ j hj => .ahead ?_
  split
  · refine (Tandem.require _).peek fun _ => (tandem_take _).next fun _ l hl => ?_
    exact .pure ⟨rfl, by omega⟩
  · exact .failure

omit hR in
/-- What a connective makes of two operands one behind the other. -/
theorem Connective.twin_apply (c : Connective) {left left' right right' : Expr} {j l m : Nat}
    (hleft : Twin text shift start left left' j) (hjl : j ≤ l)
    (hright : Twin text shift l right right' m) :
    Twin text shift start (c.apply left right (spanAt text start m))
      (c.apply left' right' ((spanAt text start m).moved shift)) m := by
  have hrow : Node.Row text start m [.expression left, .expression right] :=
    .pair hleft.between hjl hright.between
  cases c with
  | binary op => exact .of_row (.binary hleft.alike hright.alike rfl) rfl hrow
  | logical op => exact .of_row (.logical hleft.alike hright.alike rfl) rfl hrow
  | coalesce => exact (Expr.isLeaf_unsupported _).twin hrow.le

theorem tandem_joined (semi : Bool) (bound : Nat)
    {left left' : Operand} (hleft : OperandTwin text shift start left left' i)
    (hi : text.length ≤ i + depth) :
    Tandem text shift i (joined R semi bound (offsetAt text start) left)
      (joined R' semi bound (offsetAt text start + shift) left')
      (Past i 1 (OperandTwin text shift start)) := by
  refine (tandem_connective bound).next fun c j hj => tandem_gap.next fun _ l hl => ?_
  refine (hR.expression semi _ l (by omega)).bind fun right right' m ⟨hm, hright⟩ => ?_
  exact tandem_operandFrom .other (by omega) (c.twin_apply hleft.expr (by omega) hright.expr)

theorem tandem_conditional (semi : Bool) (bound : Nat)
    (hstart : start ≤ i) (hi : text.length ≤ i + depth) :
    Tandem text shift i (conditional R semi bound (offsetAt text start))
      (conditional R' semi bound (offsetAt text start + shift))
      (Past i 1 (OperandTwin text shift start)) := by
  have hbranches : ∀ j, i + 1 ≤ j → Tandem text shift j
      (do
        Reader.gap
        let _ ← R.assignment false
        symbol ":"
        Reader.gap
        let _ ← R.assignment semi
        unsupportedFrom .conditionalExpression (offsetAt text start))
      (do
        Reader.gap
        let _ ← R'.assignment false
        symbol ":"
        Reader.gap
        let _ ← R'.assignment semi
        unsupportedFrom .conditionalExpression (offsetAt text start + shift))
      (Past i 1 (OperandTwin text shift start)) := by
    intro j hj
    refine tandem_gap.next fun _ l hl => ?_
    refine (hR.expression false 0 l (by omega)).bind fun _ _ m ⟨hm, _⟩ => ?_
    refine (tandem_symbol ":" (by decide)).next fun _ n hn => tandem_gap.next fun _ p hp => ?_
    refine (hR.expression semi 0 p (by omega)).bind fun _ _ q ⟨hq, _⟩ => ?_
    exact tandem_unsupportedFrom _ (by omega) (by omega)
  refine (Tandem.require _).peek fun _ =>
    (tandem_symbol "?" (by decide)).next fun _ j hj => .ahead ?_
  split
  · exact .failure_bind
  · exact (Tandem.require _).peek fun _ => hbranches j hj
  · exact hbranches j hj

/-- Expressions. -/
theorem tandem_expressionRule (semi : Bool) (bound : Nat)
    (hi : text.length ≤ i + depth + 1) :
    Tandem text shift i (expressionRule R semi bound) (expressionRule R' semi bound)
      (Past i 1 (OperandTwin text shift i)) := by
  refine .pos ((tandem_operandRule hR semi hi).bind fun first first' j ⟨hj, hfirst⟩ => ?_)
  refine (tandem_suffixes (fun l o o' hl ho => .orElse ?_ ?_) hfirst).past (by omega)
  · exact tandem_joined hR semi bound ho (by omega)
  · exact tandem_conditional hR semi bound (by omega) (by omega)

/-- Patterns. -/
theorem tandem_patternRule (hi : text.length ≤ i + depth + 1) :
    Tandem text shift i (patternRule R) (patternRule R') (Past i 1 (Twin text shift i)) := by
  -- All ways to read a target go on with a default, which may be missing.
  have hdefault : ∀ j (target target' : Pattern), i + 1 ≤ j → Twin text shift i target target' j →
      Tandem text shift j
        (do
          let default ← Reader.option (initializer R false)
          if default.isSome then
            return .unsupported .assignmentPattern (← spanFrom (offsetAt text i))
          else return target)
        (do
          let default ← Reader.option (initializer R' false)
          if default.isSome then
            return .unsupported .assignmentPattern (← spanFrom (offsetAt text i + shift))
          else return target') (Past i 1 (Twin text shift i)) := by
    intro j target target' hj htarget
    refine (tandem_initializer hR false (by omega)).option.bind fun default default' l hl => ?_
    cases hl with
    | none => exact .pure ⟨hj, htarget⟩
    | some h =>
      have hl := h.1
      exact tandem_spanFrom (.pure ⟨by omega, (Pattern.isLeaf_unsupported _).twin (by omega)⟩)
  have hleaf : ∀ {j : Nat} {make : Span → Pattern}, IsLeaf make → i + 1 ≤ j →
      Twin text shift i (make (spanAt text i j)) (make ((spanAt text i j).moved shift)) j :=
    fun h hj => h.twin (by omega)
  refine .pos (.ahead ?_)
  split
  · refine (tandem_literal _ (by decide)).next fun _ j hj => tandem_gap.next fun _ l hl => ?_
    refine (hR.pattern l (by omega)).bind fun _ _ m ⟨hm, _⟩ => tandem_spanFrom ?_
    exact hdefault m _ _ (by omega) (hleaf (Pattern.isLeaf_unsupported _) (by omega))
  · refine (tandem_arrayPattern hR hi).next fun _ j hj => tandem_spanFrom ?_
    exact hdefault j _ _ hj (hleaf (Pattern.isLeaf_unsupported _) hj)
  · refine (tandem_objectPattern hR hi).next fun _ j hj => tandem_spanFrom ?_
    exact hdefault j _ _ hj (hleaf (Pattern.isLeaf_unsupported _) hj)
  · exact .failure_bind
  · refine (tandem_suffixed hR false hi).bind fun o o' j ⟨hj, ho⟩ => tandem_spanFrom ?_
    obtain ⟨e, form⟩ := o
    obtain ⟨e', form'⟩ := o'
    obtain ⟨rfl, hexpr⟩ := ho
    cases form' with
    | member => exact hdefault j _ _ hj (hleaf (Pattern.isLeaf_unsupported _) hj)
    | subscript => exact hdefault j _ _ hj (hleaf (Pattern.isLeaf_unsupported _) hj)
    | parenthesized | other => exact .failure_bind
    | name =>
      cases hexpr.alike with
      | @identifier name s s' _ =>
        refine hdefault j _ _ hj ?_
        split
        · exact hleaf (Pattern.isLeaf_unsupported _) hj
        · exact hleaf (Pattern.isLeaf_identifier name) hj
      | literal | binary | logical | not | call | member | metaProperty | unsupported =>
        exact .failure_bind

end ScriptToShell.Grammar
