import ScriptToShell.Proofs.CommandList
import ScriptToShell.Proofs.Fragment

/-!
# Conditions keep their logic

The test of an expression is a line of shell text, and a shell reads it
by rules of its own. This module proves that what it reads is what the
expression says: the line is a list of commands which runs the tests of
exactly those leaves that evaluating the expression visits, in the same
order, and its status is the truth of the expression
(`Expr.condition_runs_as_visited`).

The argument has two halves. One is about **words**: whatever value
stands in a command is one word, so that nothing in it can be taken for
an operator (`Expr.Written`). The other is about **braces**: an
operand that is not braced has no operator of its own but the one it is
joined by, and then it does not matter whether it is grouped
(`CommandList.run_append`).
-/

namespace ScriptToShell

open Emit Shell
open Text (joinWith)

/-! ## Evaluation -/

/-- **The evaluation of a condition.** A logical operator visits its right
operand only if the left one leaves the result open; every other
expression is a leaf. -/
def Expr.visit {m : Type → Type} [Monad m] (leaf : Expr → m Bool) : Expr → m Bool
  | .logical op left right _ => op.chain (left.visit leaf) (right.visit leaf)
  | .not argument _ => (!·) <$> argument.visit leaf
  | e => leaf e

/-- The tests whether a word counts as true. -/
def truthyTests (word : String) : List String :=
  ["[ -n " ++ word ++ " ]", "[ " ++ word ++ " != false ]", "[ " ++ word ++ " != 0 ]",
   "[ " ++ word ++ " != null ]"]

/-- **The commands that decide a leaf**: one, or the four tests of a value
that is used as a truth. All of them have to succeed. -/
def Expr.tests (target : Target) (e : Expr) : List String :=
  match e with
  | .identifier .. | .member .. =>
    match e.value target with
    | .ok word => truthyTests word
    | .error _ => []
  | _ =>
    match e.condition target with
    | .ok test => [test]
    | .error _ => []

/-- **Whether an expression is written on one line, with names a shell
takes.** This is about the expression itself, not its parts. -/
def Expr.isSimple : Expr → Bool
  | .identifier name _ => isName name
  | .call (.member (.identifier object _) _ _) arguments _ =>
    object ≠ "console" || arguments.length < 2
  | _ => true

/-- Whether the expression at a position is simple. -/
def Position.isSimple : Position → Bool
  | .expression e _ => e.isSimple
  | _ => true

/-- **An expression that is simple in all its parts.** -/
def Expr.AllSimple (e : Expr) : Prop := ∀ x ∈ e.positions .condition, x.isSimple = true

instance (e : Expr) : Decidable e.AllSimple :=
  inferInstanceAs (Decidable (∀ x ∈ e.positions .condition, x.isSimple = true))

namespace Expr.AllSimple

variable {e part : Expr}

theorem isSimple (h : e.AllSimple) : e.isSimple = true := h _ List.mem_cons_self

/-- The role of an expression does not matter. -/
theorem of_positions_subset (h : e.AllSimple) (role : Role)
    (hpart : part.positions role ⊆ e.parts) : part.AllSimple := by
  have hself : Position.expression part role ∈ e.positions .condition :=
    List.mem_cons_of_mem _ (hpart List.mem_cons_self)
  refine List.forall_mem_cons.2 ⟨?_, fun x hx => ?_⟩
  · have hsimple : part.isSimple = true := h _ hself
    exact hsimple
  · exact h x (List.mem_cons_of_mem _ (hpart (List.mem_cons_of_mem _ hx)))

end Expr.AllSimple

/-! ## Commands -/

/-- A test command around words. -/
theorem isCommand_test (words : List String) (h : ∀ w ∈ words, IsWord w) :
    IsCommand ("[" :: words ++ ["]"]) where
  head := ⟨"[", words ++ ["]"], rfl, by decide⟩
  words := by
    rw [List.cons_append, List.forall_mem_cons, List.forall_mem_append, List.forall_mem_singleton]
    exact ⟨isWord_of_isOrdinary (by decide), h, isWord_of_isOrdinary (by decide)⟩

theorem isWord_testOperator {op : BinaryOp} {span : Span} {o : String}
    (h : testOperator op span = .ok o) : IsWord o := by
  have hordinary : ∀ o ∈ testOperators, isOrdinary o = true := by decide
  exact isWord_of_isOrdinary (hordinary o (mem_testOperators h))

/-- Operators such as `&` and `<<` are harmless inside an expansion. -/
theorem isNested_arithmeticOperator {target : Target} {op : BinaryOp} {span : Span} {o : String}
    (h : arithmeticOperator op target span = .ok o) : IsNested o := by
  rw [token_of_arithmeticOperator h]
  exact isNested_of_all (by cases op <;> decide)

/-- **A comparison is a test command** of its operands. -/
theorem isCommand_comparison {op : BinaryOp} {span : Span} {left right : Except Fault String}
    {text : String} (h : comparison op span left right = .ok text)
    (hleft : ∀ l, left = .ok l → IsWord l) (hright : ∀ r, right = .ok r → IsWord r) :
    ∃ words, IsCommand words ∧ joinWith " " words = text := by
  obtain ⟨o, l, r, ho, hl, hr, rfl⟩ := bind₃_eq_ok_iff.1 h
  refine ⟨"[" :: [l, o, r] ++ ["]"], isCommand_test [l, o, r] ?_, ?_⟩
  · simp [hleft l hl, isWord_testOperator ho, hright r hr]
  · rw [← String.toList_inj]
    simp [joinWith]

/-- **An arithmetic expansion is a word.** -/
theorem isWord_arithmetic {target : Target} {op : BinaryOp} {span : Span}
    {left right : Except Fault String} {text : String}
    (h : arithmetic target op span left right = .ok text)
    (hleft : ∀ l, left = .ok l → IsWord l) (hright : ∀ r, right = .ok r → IsWord r) :
    IsWord text := by
  obtain ⟨o, l, r, ho, hl, hr, rfl⟩ := bind₃_eq_ok_iff.1 h
  have hblank : IsNested " " := isNested_of_all (by decide)
  have hbody : IsNested (" " ++ l ++ " " ++ o ++ " " ++ r ++ " ") :=
    (((((hblank.append (hleft l hl).nested).append hblank).append
      (isNested_arithmeticOperator ho)).append hblank).append (hright r hr).nested).append hblank
  have hword := isWord_substitution hbody.parens
  have htext : "$(" ++ ("(" ++ (" " ++ l ++ " " ++ o ++ " " ++ r ++ " ") ++ ")") ++ ")"
      = "$(( " ++ l ++ " " ++ o ++ " " ++ r ++ " ))" := by
    rw [← String.toList_inj]
    simp
  rwa [htext] at hword

theorem isWord_booleanWord {test : String} (h : IsNested test) : IsWord (booleanWord test) := by
  have hbody : IsNested (" if " ++ test ++ "; then printf true; else printf false; fi ") :=
    ((isNested_of_all (by decide)).append h).append (isNested_of_all (by decide))
  have hword := isWord_substitution hbody
  have htext : "$(" ++ (" if " ++ test ++ "; then printf true; else printf false; fi ") ++ ")"
      = booleanWord test := by
    rw [← String.toList_inj]
    simp [booleanWord]
  rwa [htext] at hword

theorem isWord_scriptPath : IsWord scriptPath := by
  refine ⟨by decide, fun frames hframes => ?_⟩
  rcases frames with _ | ⟨_ | _, frames⟩
  · rfl
  · exact absurd rfl hframes
  · rfl

theorem isWord_scriptDir : IsWord scriptDir := by
  refine ⟨by decide, fun frames hframes => ?_⟩
  rcases frames with _ | ⟨_ | _, frames⟩
  · rfl
  · exact absurd rfl hframes
  · rfl

theorem joinWith_snoc (separator w v : String) (ws : List String) :
    joinWith separator (w :: ws ++ [v]) = joinWith separator (w :: ws) ++ (separator ++ v) := by
  induction ws generalizing w with
  | nil => exact String.append_assoc ..
  | cons u ws ih =>
    show w ++ separator ++ joinWith separator (u :: ws ++ [v]) = _
    rw [ih, ← String.append_assoc]
    rfl

/-- A line that prints, with the redirection of its method. -/
theorem isCommand_echo (words : List String) {object : Expr} {property redirection : String}
    (hredirection : redirection? object property = some redirection)
    (h : ∀ w ∈ words, IsWord w) :
    ∃ ws, IsCommand ws ∧ joinWith " " ws = joinWith " " ("echo" :: words) ++ redirection := by
  have hecho : IsWord "echo" := isWord_of_isOrdinary (by decide)
  have hcases : redirection = "" ∨ redirection = " >&2" := by
    simpa [redirections] using mem_redirections hredirection
  rcases hcases with rfl | rfl
  · refine ⟨"echo" :: words, ⟨⟨"echo", words, rfl, by decide⟩, ?_⟩, String.append_empty.symm⟩
    exact List.forall_mem_cons.2 ⟨hecho, h⟩
  · have hduplicate : IsWord ">&2" := by
      refine ⟨by decide, fun frames hframes => ?_⟩
      rcases frames with _ | ⟨_ | _, frames⟩
      · rfl
      · exact absurd rfl hframes
      · rfl
    refine ⟨"echo" :: words ++ [">&2"], ⟨⟨"echo", words ++ [">&2"], rfl, by decide⟩, ?_⟩,
      joinWith_snoc " " "echo" ">&2" words⟩
    rw [List.cons_append, List.forall_mem_cons, List.forall_mem_append, List.forall_mem_singleton]
    exact ⟨hecho, h, hduplicate⟩

theorem not_mem_reservedWords_of_isName {name : String} (h : isName name = true) :
    name ∉ reservedWords := by
  have hnone : ∀ w ∈ reservedWords, isName w = false := by decide
  intro hw
  rw [hnone name hw] at h
  cases h

/-- **The command line of a call is a command.** -/
theorem isCommand_call {target : Target} {callee : Expr} {arguments : List Expr} {span : Span}
    {text : String}
    (h : Expr.callText callee arguments span (Expr.texts target arguments) = .ok text)
    (hsimple : (Expr.call callee arguments span).isSimple = true)
    (hcallee : callee.isSimple = true)
    (hvalue : ∀ e ∈ arguments, ∀ v, e.value target = .ok v → IsWord v)
    (hargument : ∀ e ∈ arguments, ∀ v, e.argument target = .ok v → IsWord v) :
    ∃ words, IsCommand words ∧ joinWith " " words = text := by
  cases callee with
  | identifier name s =>
    rw [Expr.callText_identifier] at h
    obtain ⟨words, hwords, rfl⟩ := map_eq_ok_iff.1 h
    have hname : isName name = true := hcallee
    refine ⟨name :: words, ⟨⟨name, words, rfl, not_mem_reservedWords_of_isName hname⟩, ?_⟩, rfl⟩
    exact List.forall_mem_cons.2
      ⟨isWord_of_isName hname, forall_of_mapM_eq_ok hwords hargument⟩
  | member object property s =>
    rw [Expr.callText_member] at h
    cases hredirection : redirection? object property with
    | none =>
      rw [hredirection] at h
      cases h
    | some redirection =>
      rw [hredirection] at h
      obtain ⟨values, hvalues, rfl⟩ := map_eq_ok_iff.1 h
      have hwords := forall_of_mapM_eq_ok hvalues hvalue
      have hfew : arguments.length < 2 := by
        obtain ⟨⟨o, rfl⟩, -⟩ := (redirection?_isSome object property).1 (by simp [hredirection])
        simpa [Expr.isSimple] using hsimple
      have hshort : values.length < 2 := (length_of_mapM_eq_ok hvalues).symm ▸ hfew
      match values, hshort with
      | [], _ => exact isCommand_echo [] hredirection nofun
      | [v], _ =>
        exact isCommand_echo [v] hredirection hwords
  | _ => cases h

/-! ## Values -/

theorem isWord_literal {value : Literal} {span : Span} {text : String}
    (h : literalText value span = .ok text) : IsWord ("\"" ++ text ++ "\"") := by
  have hplain := (accepted_literalText value span).1 ⟨text, h⟩
  have htext : value.text = text := by
    unfold literalText at h
    split at h
    · cases h
    · exact Except.ok.inj h
  rw [htext] at hplain
  refine isWord_quoted fun frames => plainBelow_of_forall fun c hc => ?_
  refine plainBelow_quoted fun hmem => hplain c hc ?_
  exact (by decide : specialQuoted ⊆ activeCharacters) hmem

theorem isWord_memberText {object : Expr} {property : String} {span : Span} {text : String}
    (h : memberText object property span = .ok text) : IsWord text := by
  rcases memberText_cases h with rfl | rfl
  · exact isWord_scriptDir
  · exact isWord_scriptPath

/-- A bare number is a word without quotes. -/
theorem isWord_of_isBare {n : String} (h : Numeral.isBare n = true) : IsWord n := by
  have hchars := Numeral.isBareChar_of_isBare h
  have hnone : specialCharacters.all (¬ Numeral.IsBareChar ·) = true := by decide
  refine isWord_of_forall (fun hnil => ?_) fun c hc hmem =>
    of_decide_eq_true (List.all_eq_true.1 hnone c hmem) (hchars c hc)
  rw [Numeral.isBare, hnil] at h
  revert h
  decide

theorem isWord_argument {target : Target} {e : Expr} {v : String}
    (h : e.argument target = .ok v) (hvalue : ∀ v, e.value target = .ok v → IsWord v) :
    IsWord v := by
  unfold Expr.argument Expr.embedArgument at h
  split at h
  · split at h
    · rename_i hbare
      cases h
      exact isWord_of_isBare hbare
    · exact hvalue v h
  · exact hvalue v h

/-! ## Conditions as lists -/

namespace Expr

/-- The operator that the condition of an expression has outside of
braces. -/
def joint? : Expr → Option LogicalOp
  | .logical op .. => some op
  | .identifier .. | .member .. => some .and
  | _ => none

/-- **A list that a condition is written as**, whose operators outside its
groups are at most the given one. -/
structure Plan (target : Target) (joint : Option LogicalOp) (e : Expr) (text : String)
    (l : CommandList) : Prop where
  /-- The commands of the list consist of words. -/
  wellFormed : l.WellFormed
  /-- The text is that of the list. -/
  print_eq : l.print = text
  /-- There is no other operator. -/
  ops_eq : ∀ o ∈ l.ops, some o = joint
  /-- The list runs what evaluating the expression visits. -/
  run_eq : ∀ {m : Type → Type} [Monad m] [LawfulMonad m] (exec : String → m Bool),
    l.run exec = e.visit fun leaf => (leaf.tests target).allM exec

variable {target : Target}

theorem Plan.isNested {joint : Option LogicalOp} {e : Expr} {text : String} {l : CommandList}
    (h : e.Plan target joint text l) : IsNested text :=
  h.print_eq ▸ l.isNested_print h.wellFormed

/-- What stands without braces has no operator but that of its parent. -/
theorem joint?_of_needsBraces {e : Expr} {parent : Option LogicalOp}
    (h : e.needsBraces parent = false) {o : LogicalOp} (ho : some o = e.joint?) :
    some o = parent := by
  cases e with
  | logical op left right span =>
    cases ho
    simpa [needsBraces] using h
  | identifier name span =>
    cases ho
    have hparent : parent = some .and := by simpa [needsBraces, isTruthyChain] using h
    exact hparent.symm
  | member object property span =>
    cases ho
    have hparent : parent = some .and := by simpa [needsBraces, isTruthyChain] using h
    exact hparent.symm
  | _ => cases ho

/-- **An operand, in braces if it needs them.** -/
theorem Plan.operand {e : Expr} {text : String} {l : CommandList}
    (h : e.Plan target e.joint? text l) (parent : Option LogicalOp) :
    ∃ l', e.Plan target parent (bracedIf (e.needsBraces parent) text) l' := by
  cases hbraces : e.needsBraces parent with
  | true =>
    refine ⟨.item (.group l), h.wellFormed, ?_, nofun, h.run_eq⟩
    rw [CommandList.print, Item.print, h.print_eq]
    rfl
  | false =>
    exact ⟨l, h.wellFormed, h.print_eq,
      fun o ho => joint?_of_needsBraces hbraces (h.ops_eq o ho), h.run_eq⟩

theorem Plan.logical {op : LogicalOp} {left right : Expr} {span : Span} {s t : String}
    {l r : CommandList} (hl : left.Plan target (some op) s l)
    (hr : right.Plan target (some op) t r) :
    (Expr.logical op left right span).Plan target (some op) (s ++ " " ++ op.token ++ " " ++ t)
      (l.append op r) where
  wellFormed := CommandList.wellFormed_append hl.wellFormed op hr.wellFormed
  print_eq := by rw [CommandList.print_append, hl.print_eq, hr.print_eq]
  ops_eq := by
    rw [CommandList.ops_append, List.forall_mem_append, List.forall_mem_cons]
    exact ⟨hl.ops_eq, rfl, hr.ops_eq⟩
  run_eq exec := by
    rw [CommandList.run_append exec l r op fun o ho => Option.some.inj (hr.ops_eq o ho),
      hl.run_eq, hr.run_eq, visit]

theorem Plan.not {argument : Expr} {span : Span} {text : String} {l : CommandList}
    (h : argument.Plan target none text l) :
    ∃ l', (Expr.not argument span).Plan target none ("! " ++ text) l' := by
  cases l with
  | join before op i =>
    -- a list with an operator would have been braced
    have hop := h.ops_eq op (by simp [CommandList.ops])
    cases hop
  | item i =>
    refine ⟨.item (.negated i), h.wellFormed, ?_, fun o ho => absurd ho List.not_mem_nil,
      fun exec => ?_⟩
    · rw [CommandList.print, Item.print, ← h.print_eq, CommandList.print]
    · rw [CommandList.run, Item.run, visit, ← h.run_eq, CommandList.run]

theorem tests_of_condition {e : Expr} {text : String} (he : e.isTruthyChain = false)
    (h : e.condition target = .ok text) : e.tests target = [text] := by
  unfold tests
  split
  · cases he
  · cases he
  · rw [h]

/-- A leaf that one command decides. -/
theorem plan_command {e : Expr} {text : String} {words : List String} (hwords : IsCommand words)
    (htext : joinWith " " words = text) (htests : e.tests target = [text])
    (hleaf : ∀ {m : Type → Type} [Monad m] (leaf : Expr → m Bool), e.visit leaf = leaf e) :
    e.Plan target none text (.item (.command words)) where
  wellFormed := hwords
  print_eq := htext
  ops_eq := nofun
  run_eq exec := by
    rw [hleaf, htests, LogicalOp.allM_cons, List.allM_nil, LogicalOp.chain_pure_true, ← htext]
    rfl

/-- The tests whether a word counts as true, word by word. -/
def truthyWords (word : String) : List (List String) :=
  [["[", word, "!=", "false", "]"], ["[", word, "!=", "0", "]"], ["[", word, "!=", "null", "]"]]

theorem isCommand_truthyWords {word : String} (h : IsWord word) :
    ∀ words ∈ ["[", "-n", word, "]"] :: truthyWords word, IsCommand words := by
  have hplain : ∀ w ∈ ["-n", "!=", "false", "0", "null"], IsWord w := by
    have hordinary : ∀ w ∈ ["-n", "!=", "false", "0", "null"], isOrdinary w = true := by decide
    exact fun w hw => isWord_of_isOrdinary (hordinary w hw)
  simp only [List.forall_mem_cons] at hplain
  obtain ⟨hn, hne, hfalse, hzero, hnull, -⟩ := hplain
  simp only [truthyWords, List.forall_mem_cons]
  refine ⟨isCommand_test ["-n", word] ?_,
    isCommand_test [word, "!=", "false"] ?_,
    isCommand_test [word, "!=", "0"] ?_,
    isCommand_test [word, "!=", "null"] ?_, nofun⟩
  all_goals simp [h, hn, hne, hfalse, hzero, hnull]

theorem truthyTests_eq (word : String) :
    truthyTests word
      = joinWith " " ["[", "-n", word, "]"] :: (truthyWords word).map (joinWith " ") := by
  simp only [truthyTests, truthyWords, List.map_cons, List.map_nil, ← String.toList_inj,
    List.cons.injEq]
  simp [joinWith]

/-- **A leaf that the four tests of a word decide.** -/
theorem plan_truthy {e : Expr} {word : String} (hword : IsWord word)
    (htests : e.tests target = truthyTests word)
    (hleaf : ∀ {m : Type → Type} [Monad m] (leaf : Expr → m Bool), e.visit leaf = leaf e) :
    e.Plan target (some .and) (truthy word)
      (.conjunction (.item (.command ["[", "-n", word, "]"])) (truthyWords word)) where
  wellFormed :=
    have hcommands := List.forall_mem_cons.1 (isCommand_truthyWords hword)
    CommandList.wellFormed_conjunction hcommands.1 hcommands.2
  print_eq := by
    rw [← String.toList_inj]
    simp [truthyWords, CommandList.conjunction, CommandList.print, Item.print, joinWith, truthy,
      LogicalOp.token]
  ops_eq o ho := 
    congrArg some (CommandList.ops_conjunction (by simp [CommandList.ops]) _ o ho)
  run_eq exec := by
    rw [hleaf, htests, truthyTests_eq, LogicalOp.allM_cons, CommandList.run_conjunction]
    rfl

/-! ## Every expression -/

/-- **An expression whose value is a word and whose condition is a list**
that runs what evaluating it visits. -/
def Written (target : Target) (e : Expr) : Prop :=
  (∀ v, e.value target = .ok v → IsWord v)
    ∧ ∀ text, e.condition target = .ok text → ∃ l, e.Plan target e.joint? text l

theorem written_identifier {name : String} {span : Span} (h : isName name = true) :
    (identifier name span).Written target := by
  have hword : IsWord ("\"$" ++ name ++ "\"") := isWord_variable h
  refine ⟨fun v hv => ?_, fun text htext => ?_⟩
  · cases hv
    exact hword
  · cases htext
    exact ⟨_, plan_truthy hword rfl fun _ => rfl⟩

theorem written_literal {value : Literal} {span : Span} :
    (literal value span).Written target := by
  refine ⟨fun v hv => ?_, fun text htext => ?_⟩
  · obtain ⟨t, ht, rfl⟩ := map_eq_ok_iff.1 hv
    exact isWord_literal ht
  · -- a condition does not show the text of the literal, only its truth
    rw [condition] at htext
    cases htext
    have hwords : IsCommand [if value.truth then "true" else "false"] := by
      refine ⟨⟨_, [], rfl, ?_⟩, ?_⟩
      · cases value.truth <;> decide
      · rw [List.forall_mem_singleton]
        cases value.truth <;> exact isWord_of_isOrdinary (by decide)
    exact ⟨_, plan_command hwords rfl rfl fun _ => rfl⟩

theorem written_binary {op : BinaryOp} {left right : Expr} {span : Span}
    (hl : left.Written target) (hr : right.Written target) :
    (binary op left right span).Written target := by
  refine ⟨fun v hv => ?_, fun text htext => ?_⟩
  · obtain ⟨t, ht, rfl⟩ := map_eq_ok_iff.1 hv
    show IsWord t
    rw [Expr.text] at ht
    split at ht
    · obtain ⟨test, htest, rfl⟩ := map_eq_ok_iff.1 ht
      obtain ⟨words, hwords, rfl⟩ := isCommand_comparison htest hl.1 hr.1
      exact isWord_booleanWord (isNested_words hwords.words)
    · exact isWord_arithmetic ht hl.1 hr.1
  · have htests := tests_of_condition (e := binary op left right span) rfl htext
    rw [condition] at htext
    split at htext
    · obtain ⟨words, hwords, hjoin⟩ := isCommand_comparison htext hl.1 hr.1
      exact ⟨_, plan_command hwords hjoin htests fun _ => rfl⟩
    · obtain ⟨v, hv, rfl⟩ := map_eq_ok_iff.1 htext
      have hwords : IsCommand ("[" :: [v, "-ne", "0"] ++ ["]"]) := by
        refine isCommand_test [v, "-ne", "0"] ?_
        rw [List.forall_mem_cons, List.forall_mem_cons, List.forall_mem_singleton]
        exact ⟨isWord_arithmetic hv hl.1 hr.1, isWord_of_isOrdinary (by decide),
          isWord_of_isOrdinary (by decide)⟩
      refine ⟨_, plan_command hwords ?_ htests fun _ => rfl⟩
      rw [← String.toList_inj]
      simp [joinWith]

theorem written_logical {op : LogicalOp} {left right : Expr} {span : Span}
    (hl : left.Written target) (hr : right.Written target) :
    (logical op left right span).Written target := by
  have hplan : ∀ s t, left.condition target = .ok s → right.condition target = .ok t →
      ∃ l, (logical op left right span).Plan target (some op)
        (bracedIf (left.needsBraces op) s ++ " " ++ op.token ++ " "
          ++ bracedIf (right.needsBraces op) t) l := by
    intro s t hs ht
    obtain ⟨l, hplan⟩ := hl.2 s hs
    obtain ⟨r, hplan'⟩ := hr.2 t ht
    obtain ⟨l', hoperand⟩ := hplan.operand (some op)
    obtain ⟨r', hoperand'⟩ := hplan'.operand (some op)
    exact ⟨l'.append op r', hoperand.logical hoperand'⟩
  -- the value is the condition again, run inside a substitution
  refine ⟨fun v hv => ?_, fun text htext => ?_⟩
  · obtain ⟨word, hword, rfl⟩ := map_eq_ok_iff.1 hv
    rw [Expr.text] at hword
    obtain ⟨s, t, hs, ht, rfl⟩ := bind₂_eq_ok_iff.1 hword
    obtain ⟨l, hl⟩ := hplan s t hs ht
    exact isWord_booleanWord hl.isNested
  · rw [condition] at htext
    obtain ⟨s, t, hs, ht, rfl⟩ := bind₂_eq_ok_iff.1 htext
    exact hplan s t hs ht

theorem written_not {argument : Expr} {span : Span} (h : argument.Written target) :
    (Expr.not argument span).Written target := by
  have hplan : ∀ t, argument.condition target = .ok t →
      ∃ l, (Expr.not argument span).Plan target none
        ("! " ++ bracedIf (argument.needsBraces none) t) l := by
    intro t ht
    obtain ⟨l, hplan⟩ := h.2 t ht
    obtain ⟨l', hoperand⟩ := hplan.operand none
    exact hoperand.not
  refine ⟨fun v hv => ?_, fun text htext => ?_⟩
  · obtain ⟨word, hword, rfl⟩ := map_eq_ok_iff.1 hv
    rw [Expr.text] at hword
    obtain ⟨t, ht, hpure⟩ := bind_eq_ok_iff.1 hword
    cases hpure
    obtain ⟨l, hl⟩ := hplan t ht
    exact isWord_booleanWord hl.isNested
  · rw [condition] at htext
    obtain ⟨t, ht, hpure⟩ := bind_eq_ok_iff.1 htext
    cases hpure
    exact hplan t ht

theorem written_call {callee : Expr} {arguments : List Expr} {span : Span}
    (hsimple : (call callee arguments span).isSimple = true) (hcallee : callee.isSimple = true)
    (h : ∀ e ∈ arguments, e.Written target) : (call callee arguments span).Written target := by
  have hcommand : ∀ t, callText callee arguments span (texts target arguments) = .ok t →
      ∃ words, IsCommand words ∧ joinWith " " words = t := by
    intro t ht
    refine isCommand_call ht hsimple hcallee (fun e he => (h e he).1) fun e he v hv => ?_
    exact isWord_argument hv (h e he).1
  refine ⟨fun v hv => ?_, fun text htext => ?_⟩
  · obtain ⟨t, ht, rfl⟩ := map_eq_ok_iff.1 hv
    rw [Expr.text] at ht
    obtain ⟨words, hwords, rfl⟩ := hcommand t ht
    exact isWord_substitution (isNested_words hwords.words)
  · have htests := tests_of_condition (e := call callee arguments span) rfl htext
    rw [condition] at htext
    obtain ⟨words, hwords, hjoin⟩ := hcommand text htext
    exact ⟨_, plan_command hwords hjoin htests fun _ => rfl⟩

theorem written_member {object : Expr} {property : String} {span : Span} :
    (member object property span).Written target := by
  refine ⟨fun v hv => ?_, fun text htext => ?_⟩
  · obtain ⟨t, ht, rfl⟩ := map_eq_ok_iff.1 hv
    exact isWord_memberText ht
  · rw [condition] at htext
    obtain ⟨word, hword, rfl⟩ := map_eq_ok_iff.1 htext
    have hvalue : (member object property span).value target = .ok word := by
      rw [value, Expr.text, hword]
      rfl
    refine ⟨_, plan_truthy (isWord_memberText hword) ?_ fun _ => rfl⟩
    simp only [tests, hvalue]

/-- **Every expression that is simple in all its parts is written so.** -/
theorem AllSimple.written (target : Target) {e : Expr} (h : e.AllSimple) : e.Written target := by
  induction e using Expr.induction_on with
  | identifier name span => exact written_identifier h.isSimple
  | literal value span => exact written_literal
  | binary op left right span ihl ihr =>
    refine written_binary (ihl ?_) (ihr ?_)
    · exact h.of_positions_subset .value
        (by rw [parts]; exact List.subset_append_left _ _)
    · exact h.of_positions_subset .value
        (by rw [parts]; exact List.subset_append_right _ _)
  | logical op left right span ihl ihr =>
    refine written_logical (ihl ?_) (ihr ?_)
    · exact h.of_positions_subset .condition
        (by rw [parts]; exact List.subset_append_left _ _)
    · exact h.of_positions_subset .condition
        (by rw [parts]; exact List.subset_append_right _ _)
  | not argument span ih =>
    refine written_not (ih ?_)
    exact h.of_positions_subset .condition (by rw [parts]; exact List.Subset.refl _)
  | call callee arguments span _ iha =>
    have hcallee : callee.AllSimple := h.of_positions_subset .callee
      (by rw [parts]; exact List.subset_append_left _ _)
    refine written_call h.isSimple hcallee.isSimple fun e he => iha e he ?_
    refine h.of_positions_subset .value fun x hx => ?_
    rw [parts]
    exact List.mem_append_right _ (positions_subset_partsAll he hx)
  | member object property span _ => exact written_member
  | metaProperty owner own span =>
    refine ⟨fun v hv => ?_, fun text htext => ?_⟩
    · cases hv
    · cases htext
  | unsupported kind span =>
    refine ⟨fun v hv => ?_, fun text htext => ?_⟩
    · cases hv
    · cases htext

end Expr

/-! ## What is run -/

namespace Shell

/-- Looks an outcome up and records what it was the outcome of. -/
def logging {α : Type} (outcome : α → Bool) (a : α) : StateM (List α) Bool :=
  fun log => (outcome a, log ++ [a])

/-- The commands of a row that are run if all of them have to succeed:
those up to the first that fails. -/
def commandsRun (outcome : String → Bool) : List String → List String
  | [] => []
  | command :: rest =>
    if outcome command then command :: commandsRun outcome rest else [command]

theorem allM_logging (outcome : String → Bool) (commands log : List String) :
    (commands.allM (logging outcome)).run log
      = (commands.all outcome, log ++ commandsRun outcome commands) := by
  induction commands generalizing log with
  | nil => exact congrArg (Prod.mk true) (List.append_nil log).symm
  | cons command rest ih =>
    rw [LogicalOp.allM_cons, LogicalOp.run_chain]
    show (if outcome command = true then _ else (outcome command, log ++ [command])) = _
    rw [List.all_cons, commandsRun]
    split
    · rename_i hcommand
      rw [hcommand]
      show (rest.allM (logging outcome)).run (log ++ [command]) = _
      rw [ih, List.append_assoc]
      rfl
    · rename_i hcommand
      rw [Bool.eq_false_iff.2 hcommand]
      rfl

end Shell

namespace Expr

/-- Whether a leaf holds by the outcomes of its commands. -/
def holds (target : Target) (outcome : String → Bool) (leaf : Expr) : Bool :=
  (leaf.tests target).all outcome

/-- The commands of a leaf that are run. -/
def commandsRun (target : Target) (outcome : String → Bool) (leaf : Expr) : List String :=
  Shell.commandsRun outcome (leaf.tests target)

/-- **Visiting leaves and running their commands** record the same, up to
the commands that each leaf has. -/
theorem visit_logging (target : Target) (outcome : String → Bool) (e : Expr) (log : List Expr) :
    (e.visit fun leaf => (leaf.tests target).allM (logging outcome)).run
        (log.flatMap (commandsRun target outcome))
      = (((e.visit (logging (holds target outcome))).run log).1,
        ((e.visit (logging (holds target outcome))).run log).2.flatMap
          (commandsRun target outcome)) := by
  have hleaf : ∀ (log : List Expr) (leaf : Expr),
      ((leaf.tests target).allM (logging outcome)).run (log.flatMap (commandsRun target outcome))
        = (holds target outcome leaf, (log ++ [leaf]).flatMap (commandsRun target outcome)) := by
    intro log leaf
    rw [allM_logging, List.flatMap_append, List.flatMap_singleton]
    rfl
  induction e using Expr.induction_on generalizing log with
  | logical op left right span ihl ihr =>
    rw [visit, visit, LogicalOp.run_chain, LogicalOp.run_chain, ihl]
    dsimp only
    split
    · exact ihr _
    · rfl
  | not argument span ih =>
    rw [visit, visit, StateT.run_map, StateT.run_map, ih]
    rfl
  | _ => exact hleaf log _

/-- **A condition runs as the expression is evaluated.** A shell reads its
text as a list of commands. However commands are run, the list runs those
of exactly the leaves that evaluating the expression visits, in the same
order, and has the truth of the expression as its status. -/
theorem condition_runs_as_visited (target : Target) (e : Expr) (text : String)
    (hsimple : e.AllSimple) (h : e.condition target = .ok text) :
    ∃ list, CommandList.read? text = some list
      ∧ (∀ {m : Type → Type} [Monad m] [LawfulMonad m] (exec : String → m Bool),
        list.run exec = e.visit fun leaf => (leaf.tests target).allM exec)
      ∧ ∀ outcome : String → Bool,
        (list.run (logging outcome)).run []
          = (((e.visit (logging (holds target outcome))).run []).1,
            ((e.visit (logging (holds target outcome))).run []).2.flatMap
              (commandsRun target outcome)) := by
  obtain ⟨l, hl⟩ := (hsimple.written target).2 text h
  refine ⟨l, ?_, hl.run_eq, fun outcome => ?_⟩
  · rw [← hl.print_eq]
    exact l.read?_print hl.wellFormed
  · rw [hl.run_eq]
    exact visit_logging target outcome e []

/-- A negated conjunction with a disjunction inside it, which calls a
command with operators and a brace in its argument. -/
def guardedProbe : Expr :=
  .not (.logical .and (.identifier "ready" .nowhere)
    (.logical .or
      (.call (.identifier "probe" .nowhere) [.literal (.string "a || b; \x7d") .nowhere] .nowhere)
      (.literal (.boolean false) .nowhere) .nowhere) .nowhere) .nowhere

/-- The text of `guardedProbe` as a condition. -/
def guardedProbeText : String :=
  "! \x7b [ -n \"$ready\" ] && [ \"$ready\" != false ] && [ \"$ready\" != 0 ]"
    ++ " && [ \"$ready\" != null ] && \x7b probe \"a || b; \x7d\" || false; \x7d; \x7d"

theorem guardedProbe_runs_as_visited :
    guardedProbe.AllSimple ∧ guardedProbe.condition .posix = .ok guardedProbeText
      ∧ ∃ list, CommandList.read? guardedProbeText = some list
        ∧ (∀ {m : Type → Type} [Monad m] [LawfulMonad m] (exec : String → m Bool),
          list.run exec = guardedProbe.visit fun leaf => (leaf.tests .posix).allM exec)
        ∧ ∀ outcome : String → Bool,
          (list.run (logging outcome)).run []
            = (((guardedProbe.visit (logging (holds .posix outcome))).run []).1,
              ((guardedProbe.visit (logging (holds .posix outcome))).run []).2.flatMap
                (commandsRun .posix outcome)) :=
  have hsimple : guardedProbe.AllSimple := by decide
  have htext : guardedProbe.condition .posix = .ok guardedProbeText := by rfl
  ⟨hsimple, htext, condition_runs_as_visited .posix guardedProbe guardedProbeText hsimple htext⟩

end Expr

end ScriptToShell
