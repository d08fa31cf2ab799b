import Mathlib.Logic.Function.Basic
import ScriptToShell.Emit.Statement
import ScriptToShell.Proofs.Condition
import ScriptToShell.Proofs.Magnitude

/-!
# The truth of a literal, folded and stored

The truth of a literal is decided in two places. As a condition it is folded
into `true` or `false`. Stored in a variable, its text is compared with four
words when the script runs. This module runs both: the line of a declaration
assigns, the condition of the variable is read as a list of commands, and its
tests look the variable up.

For a literal that is folded into `false` the two agree but for numbers: a
number whose double is zero is judged false if it is written `0`, and true
however else it is written (`Literal.stored_against_folded`).
-/

namespace ScriptToShell

open Emit Shell
open Text (joinWith)

namespace Shell

/-! ## Words, assignments and tests -/

/-- What stands between the quotes of a word. -/
def unquoted? : List Char → Option (List Char)
  | '"' :: rest => if rest.getLast? = some '"' then some rest.dropLast else none
  | _ => none

/-- **The value of a word**: that of a variable between quotes, or the text
itself, which has nothing to interpret. -/
def expand? (held : String → String) (word : String) : Option String :=
  match unquoted? word.toList with
  | some ('$' :: name) =>
    if isName (String.ofList name) then some (held (String.ofList name)) else none
  | some text => if text.all (· ∉ activeCharacters) then some (String.ofList text) else none
  | none => if isOrdinary word then some word else none

/-- **Runs an assignment.** -/
def assign? (held : String → String) (line : String) : Option (String → String) :=
  let name := String.ofList (line.toList.takeWhile (· ≠ '='))
  let word := String.ofList ((line.toList.dropWhile (· ≠ '=')).drop 1)
  if isName name then (expand? held word).map (Function.update held name) else none

/-- **The status of a test**, by its words: whether a text is not empty, and
whether two differ. -/
def testStatus? (held : String → String) : List String → Option Bool
  | ["[", "-n", word, "]"] => (expand? held word).map (· ≠ "")
  | ["[", left, "!=", right, "]"] => do
    let l ← expand? held left
    let r ← expand? held right
    return l ≠ r
  | _ => none

/-- Runs a command that is a test. -/
def runTest? (held : String → String) (command : String) : Option Bool :=
  match CommandList.read? command with
  | some (.item (.command words)) => testStatus? held words
  | _ => none

/-- **The words that count as false** when a script runs. -/
def falsyWords : List String := ["", "false", "0", "null"]

variable (held : String → String)

theorem unquoted?_quotes (text : String) :
    unquoted? ("\"" ++ text ++ "\"").toList = some text.toList := by
  simp [unquoted?]

theorem expand?_reference {name : String} (h : isName name = true) :
    expand? held ("\"$" ++ name ++ "\"") = some (held name) := by
  have hword : "\"$" ++ name ++ "\"" = "\"" ++ ("$" ++ name) ++ "\"" := by
    rw [← String.append_assoc]
    rfl
  have hname : ("$" ++ name).toList = '$' :: name.toList := by simp
  rw [expand?, hword, unquoted?_quotes, hname]
  show (if isName (String.ofList name.toList) = true then _ else _) = _
  rw [String.ofList_toList, if_pos h]

theorem expand?_quoted {text : String} (h : ∀ c ∈ text.toList, c ∉ activeCharacters) :
    expand? held ("\"" ++ text ++ "\"") = some text := by
  have hall : text.toList.all (· ∉ activeCharacters) = true :=
    List.all_eq_true.2 fun c hc => decide_eq_true (h c hc)
  rw [expand?, unquoted?_quotes]
  split
  · -- a dollar would be active
    rename_i name heq
    rw [Option.some.inj heq, List.forall_mem_cons] at h
    exact absurd (by decide) h.1
  · rename_i heq
    cases heq
    rw [if_pos hall, String.ofList_toList]
  · rename_i heq
    cases heq

/-- The line of a binding assigns the value of its word. -/
theorem assign?_line {name word value : String} (hname : isName name = true)
    (h : expand? held word = some value) :
    assign? held (name ++ "=" ++ word) = some (Function.update held name value) := by
  have hchars : ∀ c ∈ name.toList, decide (c ≠ '=') = true := by
    rintro c hc
    refine decide_eq_true fun heq => ?_
    have hfalse := (isNameChar_of_isName hname).2 c hc
    rw [heq] at hfalse
    cases hfalse
  have htext : (name ++ "=" ++ word).toList = name.toList ++ '=' :: word.toList := by simp
  have hbefore : (name ++ "=" ++ word).toList.takeWhile (· ≠ '=') = name.toList := by
    rw [htext, List.takeWhile_append_of_pos hchars]
    simp
  have hbehind : (name ++ "=" ++ word).toList.dropWhile (· ≠ '=') = '=' :: word.toList := by
    rw [htext, List.dropWhile_append_of_pos hchars]
    simp
  rw [assign?, hbefore, hbehind, List.drop_one, List.tail_cons, String.ofList_toList,
    String.ofList_toList, if_pos hname, h]
  rfl

theorem runTest?_joinWith {words : List String} (h : IsCommand words) :
    runTest? held (joinWith " " words) = testStatus? held words := by
  have hread : CommandList.read? (joinWith " " words) = some (.item (.command words)) :=
    CommandList.read?_print (.item (.command words)) h
  rw [runTest?, hread]

/-- **The four tests of a word** compare its value with the words that count as
false. -/
theorem allM_truthyTests {word value : String} (hword : IsWord word)
    (h : expand? held word = some value) :
    (truthyTests word).allM (runTest? held) = some (decide (value ∉ falsyWords)) := by
  have hcommands := Expr.isCommand_truthyWords hword
  simp only [Expr.truthyWords, List.forall_mem_cons] at hcommands
  obtain ⟨hempty, hfalse, hzero, hnull, -⟩ := hcommands
  have hlength : testStatus? held ["[", "-n", word, "]"] = some (decide (value ≠ "")) := by
    simp [testStatus?, h]
  have hdiffers : ∀ w ∈ ["false", "0", "null"],
      testStatus? held ["[", word, "!=", w, "]"] = some (decide (value ≠ w)) := by
    intro w hw
    have hplain : expand? held w = some w := by
      simp only [List.mem_cons, List.not_mem_nil, or_false] at hw
      rcases hw with rfl | rfl | rfl <;> rfl
    simp [testStatus?, h, hplain]
  rw [Expr.truthyTests_eq]
  simp only [Expr.truthyWords, List.map_cons, List.map_nil, LogicalOp.allM_cons, List.allM_nil,
    LogicalOp.chain_pure_true, runTest?_joinWith held hempty, runTest?_joinWith held hfalse,
    runTest?_joinWith held hzero, runTest?_joinWith held hnull, hlength,
    hdiffers "false" (by simp), hdiffers "0" (by simp), hdiffers "null" (by simp)]
  by_cases hvalue : value ∈ falsyWords
  · simp only [falsyWords, List.mem_cons, List.not_mem_nil, or_false] at hvalue
    rcases hvalue with rfl | rfl | rfl | rfl <;> rfl
  · have hne := hvalue
    simp only [falsyWords, List.mem_cons, List.not_mem_nil, or_false, not_or] at hne
    simp [LogicalOp.chain, hne, hvalue]

end Shell

/-! ## Literals -/

namespace Literal

/-- The literals that are false but have another text than the words that count
as false. -/
theorem truth_eq_false_and_text_not_mem_iff (value : Literal) :
    value.truth = false ∧ value.text ∉ falsyWords
      ↔ ∃ n, value = .number n ∧ n ≠ "0" ∧ (Numeral.Vanishes n ∨ Numeral.IsNotANumber n) := by
  cases value with
  | string value =>
    refine iff_of_false (fun ⟨htruth, htext⟩ => htext ?_) fun ⟨n, heq, _⟩ => nomatch heq
    have hempty : value = "" := by simpa [Literal.truth] using htruth
    rw [hempty]
    decide
  | boolean value =>
    refine iff_of_false (fun ⟨htruth, htext⟩ => htext ?_) fun ⟨n, heq, _⟩ => nomatch heq
    have hfalse : value = false := htruth
    rw [hfalse]
    decide
  | null => exact iff_of_false (fun ⟨_, htext⟩ => htext (by decide)) fun ⟨n, heq, _⟩ => nomatch heq
  | number n =>
    have htruth : (Literal.number n).truth = false ↔ Numeral.isFalsy n = true := by
      simp [Literal.truth]
    -- no number that counts as false is written like one of the other words
    have hother : ∀ w ∈ ["", "false", "null"], Numeral.isFalsy w = false := by decide
    rw [htruth]
    constructor
    · rintro ⟨hfalsy, htext⟩
      refine ⟨n, rfl, fun hzero => htext ?_, (Numeral.isFalsy_iff n).1 hfalsy⟩
      rw [hzero]
      decide
    · rintro ⟨_, ⟨⟩, hzero, hvanishes⟩
      have hfalsy := (Numeral.isFalsy_iff n).2 hvanishes
      refine ⟨hfalsy, fun htext => ?_⟩
      have hmem : n ∈ ["", "false", "null"] := by
        simp only [Literal.text, falsyWords, List.mem_cons, List.not_mem_nil, or_false] at htext ⊢
        grind
      rw [hother n hmem] at hfalsy
      cases hfalsy

/-- **A literal as it is folded and as it is stored.** The line of a declaration
stores the text of a literal, and the condition of the variable is false exactly
if that text is one of four words. A literal is folded into `false` and judged
true when stored exactly if it is a number that is not written `0` and whose
double is zero or no number. -/
theorem stored_against_folded {target : Target} {value : Literal} {name line : String}
    {span span' span'' : Span} (hname : isName name = true)
    (h : declaratorLine target ⟨.identifier name span, some (.literal value span'), span''⟩
      = .ok line) (held : String → String) :
    ∃ held' test list, assign? held line = some held' ∧ held' name = value.text
      ∧ (Expr.identifier name span).condition target = .ok test
      ∧ CommandList.read? test = some list
      ∧ list.run (runTest? held') = some (decide (value.text ∉ falsyWords))
      ∧ ((Expr.literal value span').condition target = .ok "false"
          ∧ list.run (runTest? held') = some true
        ↔ ∃ n, value = .number n ∧ n ≠ "0"
          ∧ (Numeral.Vanishes n ∨ Numeral.IsNotANumber n)) := by
  obtain ⟨v, hv, rfl⟩ := map_eq_ok_iff.1 h
  obtain ⟨text, htext, rfl⟩ := map_eq_ok_iff.1 hv
  have hplain := (accepted_literalText value span').1 ⟨text, htext⟩
  cases htext.symm.trans (literalText_eq span' hplain)
  have hassign := assign?_line held hname (expand?_quoted held hplain)
  have hwritten : (Expr.identifier name span).Written target := Expr.written_identifier hname
  obtain ⟨list, hplan⟩ := hwritten.2 _ rfl
  have hread := list.read?_print hplan.wellFormed
  rw [hplan.print_eq] at hread
  have hrun : list.run (runTest? (Function.update held name value.text))
      = some (decide (value.text ∉ falsyWords)) := by
    rw [hplan.run_eq]
    refine allM_truthyTests _ (isWord_variable hname) ((expand?_reference _ hname).trans ?_)
    rw [Function.update_self]
  refine ⟨_, _, list, hassign, Function.update_self .., rfl, hread, hrun, ?_⟩
  have hfolded : (Expr.literal value span').condition target = .ok "false"
      ↔ value.truth = false := by
    rw [Expr.condition]
    cases value.truth <;> simp
  rw [hrun, hfolded, ← truth_eq_false_and_text_not_mem_iff, Option.some_inj, decide_eq_true_eq]

/-- The line that stores a zero. -/
theorem zero_stored_against_folded :
    isName "x" = true
      ∧ declaratorLine .bash ⟨.identifier "x" .nowhere, some (.literal (.number "0") .nowhere),
          .nowhere⟩ = .ok "x=\"0\""
      ∧ ∃ held' test list, assign? (fun _ => "") "x=\"0\"" = some held' ∧ held' "x" = "0"
        ∧ (Expr.identifier "x" .nowhere).condition .bash = .ok test
        ∧ CommandList.read? test = some list
        ∧ list.run (runTest? held') = some false
        ∧ ((Expr.literal (.number "0") .nowhere).condition .bash = .ok "false"
            ∧ list.run (runTest? held') = some true
          ↔ ∃ n, Literal.number "0" = .number n ∧ n ≠ "0"
            ∧ (Numeral.Vanishes n ∨ Numeral.IsNotANumber n)) :=
  have hname : isName "x" = true := by decide
  have hline : declaratorLine .bash
      ⟨.identifier "x" .nowhere, some (.literal (.number "0") .nowhere), .nowhere⟩
      = .ok "x=\"0\"" := by rfl
  ⟨hname, hline, stored_against_folded hname hline fun _ => ""⟩

/-- **A zero in another base is stored as what counts as true.** -/
theorem hexadecimal_zero_judged_true : ∃ held list,
    declaratorLine .bash ⟨.identifier "x" .nowhere, some (.literal (.number "0x0") .nowhere),
        .nowhere⟩ = .ok "x=\"0x0\""
      ∧ (Expr.literal (.number "0x0") .nowhere).condition .bash = .ok "false"
      ∧ assign? (fun _ => "") "x=\"0x0\"" = some held
      ∧ (Expr.identifier "x" .nowhere).condition .bash = .ok (truthy "\"$x\"")
      ∧ CommandList.read? (truthy "\"$x\"") = some list
      ∧ list.run (runTest? held) = some true := by
  have hall : (assign? (fun _ => "") "x=\"0x0\"").bind (fun held =>
      (CommandList.read? (truthy "\"$x\"")).bind fun list => list.run (runTest? held))
      = some true := by decide +kernel
  obtain ⟨held, hheld, hrest⟩ := Option.bind_eq_some_iff.1 hall
  obtain ⟨list, hlist, hrun⟩ := Option.bind_eq_some_iff.1 hrest
  exact ⟨held, list, rfl, rfl, hheld, rfl, hlist, hrun⟩

end Literal

end ScriptToShell
