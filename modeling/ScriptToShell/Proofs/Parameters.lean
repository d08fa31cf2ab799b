import Mathlib.Data.List.GetD
import Mathlib.Logic.Function.Basic
import ScriptToShell.Proofs.LineNames

/-!
# What parameters are bound to

A function of a shell has no parameters but the arguments at their positions.
The body of a function therefore begins with a line for each parameter, which
binds its name to the argument at its place: `local a=$1`, `local b=$2`.

A dollar without braces takes one digit. So `$12` is the first argument with a
`2` behind it, and from the tenth position on a parameter is bound to one of
the first nine arguments with the other digits of the position behind it
(`received`). This module runs the lines as a shell does (`runBindings`) and
says which value each parameter has then (`Stmt.parameters_received`). A
parameter has its own argument, whatever the arguments are, exactly if its
place is among the first nine.
-/

namespace ScriptToShell

open Emission Emit Shell

/-! ## Running bindings -/

namespace Shell

/-- **The value of a dollar with digits behind it.** The dollar takes the first
digit as the position of an argument, and the others are text. There is no
argument at position zero, and an argument that is missing is empty. -/
def positional? (arguments : List String) : List Char → Option String
  | '$' :: digit :: digits =>
    if digit.isDigit ∧ digit ≠ '0' ∧ digits.all Char.isDigit then
      some (arguments.getD (digit.toNat - '1'.toNat) "" ++ String.ofList digits)
    else none
  | _ => none

/-- **What a line binds**: a name, and its value. -/
def binding? (arguments : List String) (line : List Char) : Option (String × String) :=
  let line := line.dropWhile isIndent
  let rest := (behindName line).tail
  if nameAt line = "local".toList ∧ (behindName line).head? = some ' ' then
    match behindName rest with
    | '=' :: word => (positional? arguments word).map (String.ofList (nameAt rest), ·)
    | _ => none
  else none

/-- **Runs lines that bind names** in a store of variables, one after the
other. -/
def runBindings (arguments : List String) (store : String → Option String)
    (lines : List String) : Option (String → Option String) :=
  lines.foldlM (fun store line => (binding? arguments line.toList).map fun bound =>
    Function.update store bound.1 (some bound.2)) store

/-- The first digit of a number. -/
def leadingDigit (n : Nat) : Nat := if n < 10 then n else leadingDigit (n / 10)

/-- **What a shell takes `$n` for**: the argument at the position that is the
first digit of `n`, with the other digits behind it. -/
def received (arguments : List String) (position : Nat) : String :=
  arguments.getD (leadingDigit position - 1) "" ++ String.ofList (toString position).toList.tail

/-! ## Positions in digits -/

theorem leadingDigit_lt (n : Nat) : leadingDigit n < 10 := by
  fun_induction leadingDigit n with
  | case1 n h => exact h
  | case2 n h ih => exact ih

theorem leadingDigit_pos {n : Nat} (h : 0 < n) : 0 < leadingDigit n := by
  fun_induction leadingDigit n with
  | case1 n _ => exact h
  | case2 n hn ih => exact ih (by omega)

/-- The digits of a number begin with its first digit. -/
theorem head?_toDigits (n : Nat) :
    (Nat.toDigits 10 n).head? = some (Nat.digitChar (leadingDigit n)) := by
  fun_induction leadingDigit n with
  | case1 n h => rw [Nat.toDigits_of_lt_base h, List.head?_cons]
  | case2 n h ih =>
    rw [Nat.toDigits_of_base_le (by decide) (by omega), List.head?_append, ih]
    rfl

theorem toList_toString (n : Nat) :
    (toString n).toList = Nat.digitChar (leadingDigit n) :: (toString n).toList.tail := by
  have hdigits : (toString n).toList = Nat.toDigits 10 n := by
    rw [Nat.toString_eq_ofList_toDigits, String.toList_ofList]
  rw [hdigits]
  exact (List.cons_head?_tail (head?_toDigits n)).symm

/-- A position of one digit is all position. -/
theorem tail_toString_of_lt {n : Nat} (h : n < 10) : (toString n).toList.tail = [] := by
  rw [Nat.toString_eq_ofList_toDigits, String.toList_ofList, Nat.toDigits_of_lt_base h,
    List.tail_cons]

/-- A position of two digits and more has some text behind its first digit. -/
theorem tail_toString_of_le {n : Nat} (h : 10 ≤ n) : (toString n).toList.tail ≠ [] := by
  rw [Nat.toString_eq_ofList_toDigits, String.toList_ofList,
    Nat.toDigits_of_base_le (by decide) h]
  intro hnil
  rw [List.tail_append_of_ne_nil Nat.toDigits_ne_nil] at hnil
  exact List.cons_ne_nil _ _ (List.append_eq_nil_iff.1 hnil).2

theorem received_of_lt {arguments : List String} {i : Nat} (h : i < 9) :
    received arguments (i + 1) = arguments.getD i "" := by
  have hlead : leadingDigit (i + 1) = i + 1 := by
    rw [leadingDigit, if_pos (by omega)]
  rw [received, tail_toString_of_lt (by omega), hlead, Nat.add_sub_cancel]
  exact String.append_empty

/-- **A dollar with a position behind it** stands for what is received there. -/
theorem positional?_toString (arguments : List String) {position : Nat} (h : 0 < position) :
    positional? arguments ('$' :: (toString position).toList)
      = some (received arguments position) := by
  have hdigits : ∀ c ∈ (toString position).toList, c.isDigit = true := by
    rw [Nat.toString_eq_ofList_toDigits, String.toList_ofList]
    exact fun c hc => Nat.isDigit_of_mem_toDigits (by decide) (by decide) hc
  have hlt := leadingDigit_lt position
  have hpos := leadingDigit_pos h
  have hnat : (Nat.digitChar (leadingDigit position)).toNat = 48 + leadingDigit position :=
    Nat.toNat_digitChar_of_lt_ten hlt
  rw [toList_toString position, List.forall_mem_cons] at hdigits
  have hzero : Nat.digitChar (leadingDigit position) ≠ '0' := by
    intro heq
    rw [heq] at hnat
    have h48 : '0'.toNat = 48 := rfl
    omega
  rw [toList_toString position, positional?,
    if_pos ⟨hdigits.1, hzero, List.all_eq_true.2 hdigits.2⟩,
    hnat, received]
  have hindex : 48 + leadingDigit position - '1'.toNat = leadingDigit position - 1 := by
    have h49 : '1'.toNat = 49 := rfl
    omega
  rw [hindex]

/-! ## The lines of parameters -/

/-- The line that binds a name to the argument at a position. -/
def bindingLine (name : String) (position : Nat) : String :=
  "local " ++ name ++ "=$" ++ toString position

theorem isBlankLine_bindingLine (name : String) (position : Nat) :
    isBlankLine (bindingLine name position) = false := by
  have hhead : (bindingLine name position).toList
      = 'l' :: ("ocal ".toList ++ name.toList ++ "=$".toList ++ (toString position).toList) := by
    simp [bindingLine]
  rw [isBlankLine, hhead, Text.allBlank, List.all_cons]
  rfl

theorem dropWhile_isIndent_indentLine (unit : Indent) (line : String) :
    (indentLine unit line).toList.dropWhile isIndent = line.toList.dropWhile isIndent := by
  unfold indentLine
  split
  · rfl
  · have hindent : ∀ c ∈ (indentation unit 1).toList, isIndent c = true := fun c hc => by
      rcases mem_indentation hc with rfl | rfl <;> rfl
    rw [String.toList_append, List.dropWhile_append_of_pos hindent]

/-- **A line binds its name** to what is received at its position, however far
it is indented. -/
theorem binding?_bindingLine (arguments : List String) (unit : Indent) {name : String}
    (hname : ∀ c ∈ name.toList, endsName c = false) {position : Nat} (h : 0 < position) :
    binding? arguments (indentLine unit (bindingLine name position)).toList
      = some (name, received arguments position) := by
  have hlocal := endsName_of_all "local" (by decide)
  have hends : endsName '=' = true := by decide
  have htext : (bindingLine name position).toList
      = "local".toList ++ ' ' :: (name.toList ++ '=' :: '$' :: (toString position).toList) := by
    simp [bindingLine]
  have hindent : (indentLine unit (bindingLine name position)).toList.dropWhile isIndent
      = "local".toList ++ ' ' :: (name.toList ++ '=' :: '$' :: (toString position).toList) := by
    rw [dropWhile_isIndent_indentLine, htext, dropWhile_isIndent_append (by decide) hlocal]
  simp only [binding?, hindent, nameAt_append_cons hlocal (by decide : endsName ' ' = true),
    behindName_append_cons hlocal (by decide : endsName ' ' = true), List.head?_cons,
    List.tail_cons, and_self, if_true, behindName_append_cons hname hends,
    nameAt_append_cons hname hends, positional?_toString arguments h, String.ofList_toList,
    Option.map_some]

/-- **The last of the parameters with its name**, which is the one that
counts. -/
def IsLastNamed (names : List String) (i : Nat) (name : String) : Prop :=
  names[i]? = some name ∧ ∀ j, i < j → names[j]? ≠ some name

/-- **Lines that bind names to values**, given by the places of the names; all
other variables stay as they are. -/
def Binds (arguments : List String) (lines names : List String) (value : Nat → Option String) :
    Prop :=
  ∀ store, ∃ bound, runBindings arguments store lines = some bound
    ∧ (∀ name, name ∉ names → bound name = store name)
    ∧ ∀ i name, IsLastNamed names i name → bound name = value i

theorem binds_nil (arguments : List String) (value : Nat → Option String) :
    Binds arguments [] [] value := by
  intro store
  refine ⟨store, rfl, fun _ _ => rfl, fun i name h => ?_⟩
  cases h.1

/-- One more line before others: its name keeps its value unless one of the
others binds it again. -/
theorem Binds.cons {arguments lines names : List String} {line name v : String}
    {value : Nat → Option String} (hline : binding? arguments line.toList = some (name, v))
    (hvalue : value 0 = some v) (h : Binds arguments lines names fun i => value (i + 1)) :
    Binds arguments (line :: lines) (name :: names) value := by
  intro store
  obtain ⟨bound, hrun, hothers, hlast⟩ := h (Function.update store name (some v))
  refine ⟨bound, ?_, fun x hx => ?_, fun i x hx => ?_⟩
  · rw [runBindings, List.foldlM_cons, hline]
    exact hrun
  · rw [List.mem_cons, not_or] at hx
    rw [hothers x hx.2, Function.update_of_ne hx.1]
  · cases i with
    | zero =>
      cases hx.1
      have hfree : name ∉ names := fun hmem => by
        obtain ⟨j, hj⟩ := List.mem_iff_getElem?.1 hmem
        exact hx.2 (j + 1) (Nat.succ_pos j) hj
      rw [hothers name hfree, Function.update_self, hvalue]
    | succ i => exact hlast i x ⟨hx.1, fun j hj => hx.2 (j + 1) (Nat.succ_lt_succ hj)⟩

/-- **The lines of parameters bind them** to what is received at their
positions. -/
theorem binds_bindingLines (arguments : List String) (unit : Indent) {names : List String}
    (hnames : ∀ name ∈ names, ∀ c ∈ name.toList, endsName c = false) {position : Nat}
    (h : 0 < position) :
    Binds arguments (indentLines unit (names.mapIdx fun i name => bindingLine name (i + position)))
      names fun i => some (received arguments (i + position)) := by
  induction names generalizing position with
  | nil => exact binds_nil _ _
  | cons name names ih =>
    rw [List.forall_mem_cons] at hnames
    rw [List.mapIdx_cons, Nat.zero_add]
    refine .cons (binding?_bindingLine arguments unit hnames.1 h) (by rw [Nat.zero_add]) ?_
    simp only [Nat.add_assoc, Nat.add_comm 1 position]
    exact ih hnames.2 (Nat.succ_pos position)

/-- **Lines of parameters that bind them to their own arguments**, whatever
these are: there are nine such places. From the tenth on the digits that are
left make a difference if all arguments are empty. -/
theorem binds_own_iff {lines names : List String}
    (h : ∀ arguments, Binds arguments lines names fun i => some (received arguments (i + 1))) :
    (∀ arguments, names.length ≤ arguments.length → Binds arguments lines names (arguments[·]?))
      ↔ ∀ i name, IsLastNamed names i name → i < 9 := by
  constructor
  · intro hown i name hlast
    by_contra hi
    -- of empty arguments nothing but the digits is left
    let empty := List.replicate names.length ""
    obtain ⟨bound, hrun, -, hvalue⟩ := hown empty (by simp [empty]) fun _ => none
    obtain ⟨bound', hrun', -, hreceived⟩ := h empty fun _ => none
    cases hrun.symm.trans hrun'
    have hlt : i < names.length := (List.getElem?_eq_some_iff.1 hlast.1).1
    have hempty : received empty (i + 1) = "" := by
      have hboth := (hreceived i name hlast).symm.trans (hvalue i name hlast)
      dsimp only at hboth
      rw [List.getElem?_replicate, if_pos hlt] at hboth
      exact Option.some.inj hboth
    have hnothing : ∀ k, empty.getD k "" = "" := fun k => by
      rw [List.getD_eq_getElem?_getD]
      exact List.getElem?_getD_replicate_default_eq _ _ k
    rw [received, hnothing, String.empty_append, String.ofList_eq_empty_iff] at hempty
    exact tail_toString_of_le (by omega) hempty
  · intro hfew arguments hmany store
    obtain ⟨bound, hrun, hothers, hvalue⟩ := h arguments store
    refine ⟨bound, hrun, hothers, fun i name hlast => ?_⟩
    have hlt : i < names.length := (List.getElem?_eq_some_iff.1 hlast.1).1
    have hi : i < arguments.length := by omega
    rw [hvalue i name hlast]
    dsimp only
    rw [received_of_lt (hfew i name hlast), List.getElem?_eq_getElem hi,
      List.getD_eq_getElem _ _ hi]

end Shell

/-! ## Functions -/

namespace Emit

/-- Lines at the beginning of a body that are not blank stay there. -/
theorem prefix_trimBlank {first : List String} (h : ∀ line ∈ first, isBlankLine line = false)
    (rest : List String) : first <+: trimBlank (first ++ rest) := by
  have hkept : ∀ lines : List String, (∀ line ∈ lines, isBlankLine line = false) →
      lines.dropWhile isBlankLine = lines := by
    intro lines hlines
    cases lines with
    | nil => rfl
    | cons line lines =>
      exact List.dropWhile_cons_of_neg (by simp [hlines line List.mem_cons_self])
  obtain ⟨tail, htail⟩ : ∃ tail,
      ((first ++ rest).reverse.dropWhile isBlankLine).reverse = first ++ tail := by
    rw [List.reverse_append, List.dropWhile_append]
    split
    · refine ⟨[], ?_⟩
      rw [hkept _ fun line hline => h line (List.mem_reverse.1 hline), List.reverse_reverse,
        List.append_nil]
    · exact ⟨_, by rw [List.reverse_append, List.reverse_reverse]⟩
  rw [trimBlank, htail]
  cases first with
  | nil => exact List.nil_prefix
  | cons line first =>
    rw [List.cons_append, List.dropWhile_cons_of_neg (by simp [h line List.mem_cons_self])]
    exact List.prefix_append (line :: first) tail

/-- Lines that are not blank begin the body whose lines they begin. -/
theorem prefix_body (indent : Indent) {first : List String}
    (h : ∀ line ∈ first, isBlankLine line = false) (rest : List String) :
    indentLines indent first <+: body indent (first ++ rest) := by
  have htrim := prefix_trimBlank h rest
  unfold body
  split
  · rename_i hnil
    rw [hnil, List.prefix_nil] at htrim
    rw [htrim]
    exact List.nil_prefix
  · exact htrim.map _

theorem length_parameterNames {function : String} {index : Nat} {params : List Pattern}
    {lines : List String} (h : bindings function index params = .ok lines) :
    (parameterNames params).length = params.length := by
  induction params generalizing index lines with
  | nil => rfl
  | cons p params ih =>
    cases p with
    | unsupported kind span => cases h
    | identifier name span =>
      obtain ⟨rest, hrest, -⟩ := bind_eq_ok_iff.1 h
      exact congrArg (· + 1) (ih hrest)

end Emit

namespace Stmt

/-- **The lines of a function that bind its parameters**: as many as there are
parameters, behind the line that names the function. -/
def bindingLines (params : List Pattern) (lines : List String) : List String :=
  (lines.drop 1).take params.length

theorem bindingLines_eq {w : Setting} {n : Nesting} {name : String} {params : List Pattern}
    {stmts : List Stmt} {span : Span} {lines : List String}
    (h : outcome ((function name params stmts span).emit w) n = .ok lines) :
    (parameterNames params).length = params.length
      ∧ bindingLines params lines = indentLines w.options.indent (parameterLines params) := by
  rw [outcome_function] at h
  obtain ⟨locals, rest, hlocals, -, rfl⟩ := bind₂_eq_ok_iff.1 h
  have hlength := length_parameterNames hlocals
  obtain rfl : locals = parameterLines params := bindings_eq hlocals
  have hblank : ∀ line ∈ parameterLines params, isBlankLine line = false := by
    intro line hline
    obtain ⟨i, hi, rfl⟩ := List.mem_mapIdx.1 hline
    exact isBlankLine_bindingLine _ _
  have hcount : (indentLines w.options.indent (parameterLines params)).length = params.length := by
    rw [indentLines, List.length_map, parameterLines, List.length_mapIdx, hlength]
  obtain ⟨tail, htail⟩ := prefix_body w.options.indent hblank rest
  refine ⟨hlength, ?_⟩
  rw [← htail]
  show ((_ ++ tail) ++ _).take params.length = _
  rw [List.append_assoc, List.take_left' hcount]

/-- **What the parameters of a function are bound to.** The lines that bind them
run, and each parameter has then what a shell takes a dollar with its position
for; of parameters with one name the last one counts. So each has its own
argument, however many arguments there are and whatever they are, exactly if
those that count are among the first nine. -/
theorem parameters_received (w : Setting) (n : Nesting) (name : String) (params : List Pattern)
    (stmts : List Stmt) (span : Span) (lines : List String)
    (hlines : outcome ((function name params stmts span).emit w) n = .ok lines)
    (hnames : ∀ p ∈ parameterNames params, ∀ c ∈ p.toList, endsName c = false) :
    (∀ arguments, Binds arguments (bindingLines params lines) (parameterNames params)
        fun i => some (received arguments (i + 1)))
      ∧ ((∀ arguments, params.length ≤ arguments.length →
          Binds arguments (bindingLines params lines) (parameterNames params) (arguments[·]?))
        ↔ ∀ i p, IsLastNamed (parameterNames params) i p → i < 9) := by
  obtain ⟨hlength, hbindings⟩ := bindingLines_eq hlines
  have hall : ∀ arguments, Binds arguments (bindingLines params lines) (parameterNames params)
      fun i => some (received arguments (i + 1)) := by
    intro arguments
    rw [hbindings]
    exact binds_bindingLines arguments w.options.indent hnames Nat.one_pos
  refine ⟨hall, ?_⟩
  rw [← hlength]
  exact binds_own_iff hall

/-- A function without statements. -/
def parameterized (names : List String) : Stmt :=
  .function "f" (names.map (.identifier · .nowhere)) [] .nowhere

/-- A repeated name takes the later argument. -/
theorem parameterized_received : ∃ lines,
    outcome ((parameterized ["a", "$b", "a"]).emit .blank) {} = .ok lines
      ∧ (∀ p ∈ ["a", "$b", "a"], ∀ c ∈ p.toList, endsName c = false)
      ∧ IsLastNamed ["a", "$b", "a"] 2 "a"
      ∧ Binds ["x", "y z", "u", "v"]
        (bindingLines (["a", "$b", "a"].map (.identifier · .nowhere)) lines) ["a", "$b", "a"]
        (["x", "y z", "u", "v"][·]?) := by
  have hlines : outcome ((parameterized ["a", "$b", "a"]).emit .blank) {}
      = .ok ["f() \x7b", "  local a=$1", "  local $b=$2", "  local a=$3", "\x7d", ""] := by
    decide +kernel
  have hall : ∀ p ∈ ["a", "$b", "a"], p.toList.all (!endsName ·) = true := by decide
  have hnames : ∀ p ∈ ["a", "$b", "a"], ∀ c ∈ p.toList, endsName c = false :=
    fun p hp => endsName_of_all p (hall p hp)
  refine ⟨_, hlines, hnames, ⟨rfl, fun j hj => ?_⟩, ?_⟩
  · rw [List.getElem?_eq_none (Nat.succ_le_of_lt hj)]
    exact nofun
  · refine (parameters_received _ _ _ _ _ _ _ hlines hnames).2.2 (fun i p hlast => ?_) _ (by decide)
    have hlt := (List.getElem?_eq_some_iff.1 hlast.1).1
    exact Nat.lt_trans hlt (by decide)

/-- Ten names. -/
def tenNames : List String := ["a", "b", "c", "d", "e", "g", "h", "i", "j", "k"]

/-- Ten arguments. -/
def tenArguments : List String :=
  ["one", "two", "three", "four", "five", "six", "seven", "eight", "nine", "ten"]

/-- **The tenth parameter misses its argument**: it has the first one, with a
zero behind it. -/
theorem tenth_parameter_misses_argument : ∃ lines bound,
    outcome ((parameterized tenNames).emit .blank) {} = .ok lines
      ∧ runBindings tenArguments (fun _ => none)
          (bindingLines (tenNames.map (.identifier · .nowhere)) lines) = some bound
      ∧ IsLastNamed tenNames 9 "k" ∧ tenArguments[9]? = some "ten" ∧ bound "k" = some "one0" := by
  have hlines : (outcome ((parameterized tenNames).emit .blank) {}).toOption.map
      (fun lines => (runBindings tenArguments (fun _ => none)
        (bindingLines (tenNames.map (.identifier · .nowhere)) lines)).map (· "k"))
      = some (some (some "one0")) := by
    decide +kernel
  obtain ⟨lines, hok, hrun⟩ := Option.map_eq_some_iff.1 hlines
  obtain ⟨bound, hbound, hk⟩ := Option.map_eq_some_iff.1 hrun
  refine ⟨lines, bound, ?_, hbound, ⟨rfl, fun j hj => ?_⟩, rfl, hk⟩
  · cases hemit : outcome ((parameterized tenNames).emit .blank) {} with
    | error fault =>
      rw [hemit] at hok
      cases hok
    | ok found =>
      rw [hemit] at hok
      cases hok
      rfl
  · rw [List.getElem?_eq_none (Nat.succ_le_of_lt hj)]
    exact nofun

end Stmt

end ScriptToShell
