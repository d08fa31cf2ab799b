import ScriptToShell.Proofs.NamesInText

/-!
# The names in the text of an expression

The text of an expression is put together from fixed text, literals and
names, and the names that are referred to in it are the variables of the
expression. The only place where this could go wrong is a seam: a quote at
the end of one part and a dollar sign at the start of the next would make a
reference that nobody wrote. `Refers` says which names a text refers to, part
by part, and `Expr.refers` says that they are those of the expression.
-/

namespace ScriptToShell

open Emit

namespace Shell

open Text

/-! ## Characters of names -/

section Spelled

variable {name : String}

theorem endsName_of_isSpelled (h : IsSpelled name) : ∀ c ∈ name.toList, endsName c = false := by
  have hnone : [' ', '\t', '\n', '"', '=', '(', ')'].all (!isSpellingChar ·) = true := by decide
  intro c hc
  refine Bool.eq_false_iff.2 fun hends => ?_
  have hchar := List.all_eq_true.1 hnone c (List.contains_iff_mem.1 hends)
  rw [h.chars c hc] at hchar
  cases hchar

theorem not_mem_of_isSpelled (h : IsSpelled name) {c : Char} (hc : endsName c = true) :
    c ∉ name.toList := by
  intro hmem
  rw [endsName_of_isSpelled h c hmem] at hc
  cases hc

theorem return_not_mem_of_isSpelled (h : IsSpelled name) : '\r' ∉ name.toList := fun hmem =>
  absurd (h.chars '\r' hmem) (by decide)

/-- A name is not empty. -/
theorem exists_cons_of_isSpelled (h : IsSpelled name) :
    ∃ c cs, name.toList = c :: cs ∧ c.isDigit = false ∧ endsName c = false := by
  obtain ⟨c, hc, hdigit⟩ := h.head
  cases hname : name.toList with
  | nil =>
    rw [hname] at hc
    cases hc
  | cons d cs =>
    rw [hname] at hc
    cases hc
    refine ⟨c, cs, rfl, hdigit, endsName_of_isSpelled h c ?_⟩
    rw [hname]
    exact List.mem_cons_self

end Spelled

/-! ## Texts that refer to names -/

/-- **A text that refers to names**, and to no others. Wherever a quote and a
dollar sign stand in it, they are followed by one of the names and a quote,
or by something that is no name; and each of the names is found so. -/
structure Refers (names : List String) (text : String) : Prop where
  /-- Nothing else is referred to. -/
  only : ∀ before rest, text.toList = before ++ '"' :: '$' :: rest →
    (∃ name ∈ names, ∃ more, rest = name.toList ++ '"' :: more)
      ∨ ∃ c more, rest = c :: more ∧ (c = '(' ∨ c.isDigit = true)
  /-- Every name is referred to. -/
  all : ∀ name ∈ names, ∃ before more,
    text.toList = before ++ '"' :: '$' :: (name.toList ++ '"' :: more)

/-- **What is expanded in a text are the names that it refers to.** -/
theorem Refers.mem_expanded {names : List String} {text : String} (h : Refers names text)
    (hnames : ∀ name ∈ names, IsSpelled name) {name : String} :
    name ∈ expanded text.toList ↔ name ∈ names := by
  have hends : endsName '"' = true := by decide
  rw [mem_expanded_iff]
  constructor
  · rintro ⟨before, rest, htext, hquote, hdigit, rfl⟩
    rcases h.only before rest htext with ⟨name, hname, more, rfl⟩ | ⟨c, more, rfl, hc | hc⟩
    · rw [nameAt_append_cons (endsName_of_isSpelled (hnames name hname)) hends,
        String.ofList_toList]
      exact hname
    · subst hc
      rw [show behindName ('(' :: more) = '(' :: more from rfl] at hquote
      cases hquote
    · have hnone : (!c.isDigit) = true := hdigit
      rw [hc] at hnone
      cases hnone
  · intro hname
    obtain ⟨before, more, htext⟩ := h.all name hname
    have hspelled := hnames name hname
    refine ⟨before, _, htext, ?_, ?_, ?_⟩
    · rw [behindName_append_cons (endsName_of_isSpelled hspelled) hends]
      rfl
    · obtain ⟨c, cs, hcs, hdigit, -⟩ := exists_cons_of_isSpelled hspelled
      rw [hcs]
      show (!c.isDigit) = true
      rw [hdigit]
      rfl
    · rw [nameAt_append_cons (endsName_of_isSpelled hspelled) hends, String.ofList_toList]

/-- Whether a text refers to no name at all. -/
def refersToNone : List Char → Bool
  | [] => true
  | c :: cs => (c ≠ '"' || cs.head? ≠ some '$'
      || cs.tail.head?.any fun d => d = '(' || d.isDigit) && refersToNone cs

section Refers

variable {names names' : List String} {s t : String}

theorem refers_of_refersToNone (h : refersToNone t.toList = true) : Refers [] t := by
  refine ⟨fun before rest htext => .inr ?_, nofun⟩
  rw [htext] at h
  clear htext
  induction before with
  | nil =>
    have hnone : rest.head?.any (fun d => d = '(' || d.isDigit) = true := by
      simpa using (Bool.and_eq_true_iff.1 h).1
    cases rest with
    | nil => cases hnone
    | cons c more => exact ⟨c, more, rfl, by simpa using hnone⟩
  | cons b before ih => exact ih (Bool.and_eq_true_iff.1 h).2

theorem refers_of_not_mem {c : Char} (hc : c = '"' ∨ c = '$') (h : c ∉ t.toList) : Refers [] t := by
  refine ⟨fun before rest htext => absurd ?_ h, nofun⟩
  rw [htext]
  rcases hc with rfl | rfl <;> simp

theorem Refers.congr (h : Refers names t) (hmem : ∀ name, name ∈ names ↔ name ∈ names') :
    Refers names' t where
  only before rest htext := by
    refine (h.only before rest htext).imp_left ?_
    rintro ⟨name, hname, hrest⟩
    exact ⟨name, (hmem name).1 hname, hrest⟩
  all name hname := h.all name ((hmem name).2 hname)

/-- **Two texts refer to the names of both**, unless a reference arises at the
seam. -/
theorem Refers.append (hs : Refers names s) (ht : Refers names' t)
    (hseam : s.toList.getLast? ≠ some '"' ∨ t.toList.head? ≠ some '$') :
    Refers (names ++ names') (s ++ t) where
  only before rest htext := by
    rw [String.toList_append] at htext
    rcases List.append_eq_append_iff.1 htext with ⟨as, -, htext⟩ | ⟨bs, hbefore, htext⟩
    · -- the reference is in the second text
      refine (ht.only as rest htext).imp_left ?_
      rintro ⟨name, hname, hrest⟩
      exact ⟨name, List.mem_append_right names hname, hrest⟩
    · rcases bs with _ | ⟨b, _ | ⟨b', bs⟩⟩
      · refine (ht.only [] rest htext.symm).imp_left ?_
        rintro ⟨name, hname, hrest⟩
        exact ⟨name, List.mem_append_right names hname, hrest⟩
      · obtain ⟨rfl, hhead⟩ := List.cons.inj htext
        replace hhead : '$' :: rest = t.toList := hhead
        rw [hbefore, ← hhead] at hseam
        simp at hseam
      · -- it is in the first one
        obtain ⟨rfl, hrest⟩ := List.cons.inj htext
        obtain ⟨rfl, rfl⟩ := List.cons.inj hrest
        rcases hs.only before bs hbefore with ⟨name, hname, more, rfl⟩ | ⟨c, more, rfl, hc⟩
        · exact .inl ⟨name, List.mem_append_left names' hname, more ++ t.toList, by simp⟩
        · exact .inr ⟨c, more ++ t.toList, rfl, hc⟩
  all name hname := by
    rw [String.toList_append]
    rcases List.mem_append.1 hname with hname | hname
    · obtain ⟨before, more, hs⟩ := hs.all name hname
      exact ⟨before, more ++ t.toList, by simp [hs]⟩
    · obtain ⟨before, more, ht⟩ := ht.all name hname
      exact ⟨s.toList ++ before, more, by simp [ht]⟩

/-- Whether a fixed text may stand before any other. -/
def isOpening (text : String) : Bool :=
  refersToNone text.toList && text.toList.getLast?.any (· ≠ '"')

/-- Whether a fixed text may stand behind any other. -/
def isClosing (text : String) : Bool :=
  refersToNone text.toList && text.toList.head?.any (· ≠ '$')

theorem Refers.behind (hs : isOpening s = true) (ht : Refers names t) : Refers names (s ++ t) := by
  obtain ⟨hnone, hlast⟩ := Bool.and_eq_true_iff.1 hs
  refine (refers_of_refersToNone hnone).append ht (.inl fun hquote => ?_)
  rw [hquote] at hlast
  cases hlast

theorem Refers.before (hs : Refers names s) (ht : isClosing t = true) : Refers names (s ++ t) := by
  obtain ⟨hnone, hhead⟩ := Bool.and_eq_true_iff.1 ht
  have happend := hs.append (refers_of_refersToNone hnone) (.inr fun hdollar => by
    rw [hdollar] at hhead
    cases hhead)
  rwa [List.append_nil] at happend

/-- Two texts with fixed text between them. -/
theorem Refers.between (hs : Refers names s) {m : String}
    (hm : isClosing m = true ∧ isOpening m = true) (ht : Refers names' t) :
    Refers (names ++ names') (s ++ m ++ t) := by
  refine (hs.before hm.1).append ht (.inl ?_)
  obtain ⟨c, hc, hquote⟩ := (Option.any_eq_true _ _).1 (Bool.and_eq_true_iff.1 hm.2).2
  rw [String.toList_append, List.getLast?_append, hc]
  simpa using hquote

/-- A reference to a variable. -/
theorem refers_reference {name : String} (h : IsSpelled name) :
    Refers [name] ("\"$" ++ name ++ "\"") where
  only before rest htext := by
    have hquote : '"' ∉ '$' :: name.toList := by
      rw [List.mem_cons, not_or]
      exact ⟨by decide, not_mem_of_isSpelled h (by decide)⟩
    have htext' : '"' :: (('$' :: name.toList) ++ ['"']) = before ++ '"' :: '$' :: rest := by
      rw [← htext]
      simp
    cases before with
    | nil =>
      obtain ⟨-, hrest⟩ := List.cons.inj htext'
      exact .inl ⟨name, List.mem_singleton_self name, [], ((List.cons.inj hrest).2).symm⟩
    | cons b before =>
      -- the quote at the end is the only other one
      obtain ⟨-, hrest⟩ := List.cons.inj htext'
      rcases List.append_eq_append_iff.1 hrest with ⟨as, -, hend⟩ | ⟨bs, hname, hend⟩
      · have hlength := congrArg List.length hend
        simp at hlength
        omega
      · rcases bs with _ | ⟨b, bs⟩
        · cases hend
        · obtain ⟨rfl, -⟩ := List.cons.inj hend
          rw [hname] at hquote
          exact absurd (by simp) hquote
  all name' hname' := by
    cases List.mem_singleton.1 hname'
    exact ⟨[], [], by simp⟩

/-! ## Texts that are put together -/

theorem refers_booleanWord (h : Refers names t) : Refers names (booleanWord t) :=
  (h.behind (by decide)).before (by decide)

theorem refers_braced (needed : Bool) (h : Refers names t) : Refers names (bracedIf needed t) := by
  cases needed with
  | false => exact h
  | true => exact (h.behind (by decide)).before (by decide)

theorem refers_truthy (h : Refers names t) : Refers names (truthy t) := by
  have hempty := (h.behind (s := "[ -n ") (by decide)).between (m := " ] && [ ") (by decide) h
  have hfalse := hempty.between (m := " != false ] && [ ") (by decide) h
  have hzero := hfalse.between (m := " != 0 ] && [ ") (by decide) h
  refine (hzero.before (t := " != null ]") (by decide)).congr fun name => ?_
  simp

/-- Two texts with an operator between them. -/
theorem refers_operation {l r o opening closing : String} (hl : Refers names l)
    (hr : Refers names' r) (hopening : isOpening opening = true)
    (ho : isClosing (" " ++ o ++ " ") = true ∧ isOpening (" " ++ o ++ " ") = true)
    (hclosing : isClosing closing = true) :
    Refers (names ++ names') (opening ++ l ++ " " ++ o ++ " " ++ r ++ closing) := by
  have hboth := ((hl.behind hopening).between ho hr).before hclosing
  simpa [String.append_assoc] using hboth

/-- Texts with a separator between them. -/
theorem refers_joinWith {α : Type} {f : α → Except Fault String} {g : String → String}
    {names : α → List String} (separator : String)
    (hseparator : isClosing separator = true ∧ isOpening separator = true) {as : List α}
    {texts : List String} (hmap : as.mapM f = .ok texts)
    (h : ∀ a ∈ as, ∀ text, f a = .ok text → Refers (names a) (g text)) :
    Refers (as.flatMap names) (joinWith separator (texts.map g)) := by
  induction as generalizing texts with
  | nil =>
    cases hmap
    exact refers_of_refersToNone (t := "") (by decide)
  | cons a as ih =>
    rw [List.mapM_cons] at hmap
    obtain ⟨text, texts', htext, htexts, rfl⟩ := bind₂_eq_ok_iff.1 hmap
    rw [List.forall_mem_cons] at h
    have hfirst := h.1 text htext
    have hothers := ih htexts h.2
    rw [List.flatMap_cons, List.map_cons]
    cases texts' with
    | nil =>
      cases as with
      | nil =>
        rw [List.flatMap_nil, List.append_nil]
        exact hfirst
      | cons b bs =>
        have hlength := length_of_mapM_eq_ok htexts
        cases hlength
    | cons u us => exact hfirst.between hseparator hothers

end Refers

end Shell

/-! ## The variables of an expression -/

/-- **The names that a position passes on to the script**: the variable that an
expression stands for, and what is introduced. The name of a command is none
of them. -/
def Position.passedOn : Position → List String
  | .statement (.function name _ _ _) _ _ => [name]
  | .expression (.identifier name _) .value => [name]
  | .expression (.identifier name _) .condition => [name]
  | .pattern (.identifier name _) => [name]
  | _ => []

/-- The names that positions pass on. -/
def Position.passedOnAll (xs : List Position) : List String := xs.flatMap Position.passedOn

/-- **The names that an expression passes on.** -/
def Expr.passedOn (e : Expr) : List String := Position.passedOnAll (e.positions .value)

open Position (passedOnAll)

@[simp] theorem Position.passedOnAll_nil : passedOnAll [] = [] := rfl

@[simp] theorem Position.passedOnAll_cons (x : Position) (xs : List Position) :
    passedOnAll (x :: xs) = x.passedOn ++ passedOnAll xs := List.flatMap_cons

@[simp] theorem Position.passedOnAll_append (xs ys : List Position) :
    passedOnAll (xs ++ ys) = passedOnAll xs ++ passedOnAll ys := List.flatMap_append

/-- What is passed on is a name of the program. -/
theorem Position.passedOn_subset_names (x : Position) : x.passedOn ⊆ x.names := by
  unfold Position.passedOn
  split <;> simp [Position.names]

namespace Expr

/-- As a condition, an expression passes on what it does as a value. -/
theorem passedOnAll_condition (e : Expr) : passedOnAll (e.positions .condition) = e.passedOn := by
  cases e <;> rfl

theorem passedOnAll_partsAll (es : List Expr) :
    passedOnAll (partsAll es) = es.flatMap Expr.passedOn := by
  induction es with
  | nil =>
    rw [partsAll]
    rfl
  | cons e es ih =>
    rw [partsAll, Position.passedOnAll_append, ih]
    rfl

section PassedOn

variable (op : BinaryOp) (e left right callee : Expr) (arguments : List Expr) (span : Span)

theorem passedOn_binary :
    (binary op left right span).passedOn = left.passedOn ++ right.passedOn := by
  rw [passedOn, positions_binary, Position.passedOnAll_cons, Position.passedOnAll_append]
  rfl

theorem passedOn_logical (op : LogicalOp) :
    (logical op left right span).passedOn = left.passedOn ++ right.passedOn := by
  rw [passedOn, positions_logical, Position.passedOnAll_cons, Position.passedOnAll_append,
    passedOnAll_condition, passedOnAll_condition]
  rfl

theorem passedOn_not : (not e span).passedOn = e.passedOn := by
  rw [passedOn, positions_not, Position.passedOnAll_cons, passedOnAll_condition]
  rfl

theorem passedOn_call :
    (call callee arguments span).passedOn
      = passedOnAll (callee.positions .callee) ++ arguments.flatMap Expr.passedOn := by
  rw [passedOn, positions_call, Position.passedOnAll_cons, Position.passedOnAll_append,
    passedOnAll_partsAll]
  rfl

end PassedOn

end Expr

/-! ## What an expression refers to -/

open Shell

theorem refers_literal {value : Literal}
    (h : ∀ c ∈ value.text.toList, c ∉ activeCharacters) :
    Refers [] ("\"" ++ value.text ++ "\"") := by
  refine refers_of_not_mem (.inr rfl) fun hmem => ?_
  have hdollar : '$' ∈ value.text.toList := by simpa using hmem
  exact h '$' hdollar (by decide)

/-- A property has no variable in its text, nor has the object that it is one
of. -/
theorem refers_memberText {object : Expr} {property : String} {span : Span} {text : String}
    (h : memberText object property span = .ok text) :
    Refers (Expr.member object property span).passedOn text := by
  obtain ⟨⟨s, rfl⟩, -⟩ := (accepted_memberText object property span).1 ⟨text, h⟩
  show Refers [] text
  rcases memberText_cases h with rfl | rfl
  · exact refers_of_refersToNone (by decide)
  · exact refers_of_refersToNone (by decide)

/-- A line that prints. -/
theorem refers_print {redirection v : String} {names : List String}
    (hredirection : redirection ∈ redirections) (h : Refers names v) :
    Refers names ("echo " ++ v ++ redirection) := by
  have hline := h.behind (s := "echo ") (by decide)
  simp only [redirections, List.mem_cons, List.not_mem_nil, or_false] at hredirection
  rcases hredirection with rfl | rfl
  · rw [String.append_empty]
    exact hline
  · exact hline.before (by decide)

theorem refers_spelled {name : String} (h : IsSpelled name) : Refers [] name :=
  refers_of_not_mem (.inl rfl) (not_mem_of_isSpelled h (by decide))

/-- A method that prints is no variable, nor is the object that it is one of. -/
theorem passedOn_print {object : Expr} {property redirection : String}
    (h : redirection? object property = some redirection) (arguments : List Expr) (s span : Span) :
    (Expr.call (.member object property s) arguments span).passedOn
      = arguments.flatMap Expr.passedOn := by
  obtain ⟨⟨s', rfl⟩, -⟩ := (redirection?_isSome object property).1 (Option.isSome_of_eq_some h)
  exact Expr.passedOn_call ..

/-- The names that a piece passes on. -/
def Piece.passedOn : Piece → List String
  | .value e | .argument e | .test e => e.passedOn
  | .arguments es | .prints _ es => es.flatMap Expr.passedOn
  | .command callee es span => (Expr.call callee es span).passedOn

/-- **The text of a piece refers to its variables.** -/
theorem Transcribes.refers {target : Target} {p : Piece} {text : String}
    (h : Transcribes IsSpelled target p text) : Refers p.passedOn text := by
  have hflat (e : Expr) (es : List Expr) :
      (e :: es).flatMap Expr.passedOn = e.passedOn ++ es.flatMap Expr.passedOn := List.flatMap_cons
  induction h with
  | reference h => exact refers_reference h
  | quoted h => exact refers_literal h
  | property h => exact refers_memberText h
  | @arithmetic op left right span l o r ho _ _ ihl ihr =>
    rw [token_of_arithmeticOperator ho, Piece.passedOn, Expr.passedOn_binary]
    exact refers_operation ihl ihr (by decide) (by cases op <;> decide) (by decide)
  | boolean _ _ ih => exact refers_booleanWord ih
  | substitution _ ih => exact (ih.behind (by decide)).before (by decide)
  | number h =>
    refine refers_of_not_mem (.inl rfl) fun hmem => ?_
    exact absurd (Numeral.isBareChar_of_isBare h '"' hmem) (by decide)
  | word _ _ ih => exact ih
  | last _ ih =>
    rw [Piece.passedOn, hflat, List.flatMap_nil, List.append_nil]
    exact ih
  | more _ _ iha ihas =>
    rw [Piece.passedOn, hflat]
    exact iha.between (by decide) ihas
  | name h => exact refers_spelled h
  | call h _ ih =>
    rw [Piece.passedOn, Expr.passedOn_call]
    exact (refers_spelled h).between (by decide) ih
  | echo h =>
    have hecho : ∀ r ∈ redirections, refersToNone ("echo" ++ r).toList = true := by decide
    rw [Piece.passedOn, passedOn_print h]
    exact refers_of_refersToNone (hecho _ (mem_redirections h))
  | prints h _ ih =>
    rw [Piece.passedOn, passedOn_print h]
    exact ih
  | line h _ ih =>
    rw [Piece.passedOn, hflat, List.flatMap_nil, List.append_nil]
    exact refers_print h ih
  | lines h _ _ ihv iht =>
    rw [Piece.passedOn, hflat]
    exact (refers_print h ihv).between (by decide) iht
  | comparison ho _ _ ihl ihr =>
    have hoperators : ∀ o ∈ testOperators, isClosing (" " ++ o ++ " ") = true
        ∧ isOpening (" " ++ o ++ " ") = true := by decide
    rw [Piece.passedOn, Expr.passedOn_binary]
    exact refers_operation ihl ihr (by decide) (hoperators _ (mem_testOperators ho)) (by decide)
  | nonzero _ _ ih => exact (ih.behind (by decide)).before (by decide)
  | referenceTest h => exact refers_truthy (refers_reference h)
  | propertyTest h => exact refers_truthy (refers_memberText h)
  | @constant value _ => cases value.truth <;> exact refers_of_refersToNone (by decide)
  | status _ ih => exact ih
  | @logical op left right span l r _ _ ihl ihr =>
    have hoperator : isClosing (" " ++ op.token ++ " ") = true
        ∧ isOpening (" " ++ op.token ++ " ") = true := by cases op <;> decide
    have hboth := (refers_braced (left.needsBraces op) ihl).between hoperator
      (refers_braced (right.needsBraces op) ihr)
    rw [Piece.passedOn, Expr.passedOn_logical]
    simpa [Piece.passedOn, String.append_assoc] using hboth
  | negated _ ih =>
    rw [Piece.passedOn, Expr.passedOn_not]
    exact (refers_braced _ ih).behind (by decide)

/-- **The text of an expression refers to its variables**, as a value and as a
condition. -/
theorem Expr.refers (target : Target) (e : Expr) (role : Role)
    (h : ∀ x ∈ e.positions role, x.Named IsSpelled) :
    (∀ v, e.value target = .ok v → Refers e.passedOn v)
      ∧ ∀ t, e.condition target = .ok t → Refers e.passedOn t :=
  ⟨fun v hv => ((e.transcribes target role h).1 v hv).refers,
    fun t ht => ((e.transcribes target role h).2 t ht).refers⟩

end ScriptToShell
