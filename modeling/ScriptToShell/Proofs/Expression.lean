import ScriptToShell.Emit.Expression
import ScriptToShell.Text.Blank

/-!
# The parts of an expression

The text, the value and the condition of an expression are made from
those of its parts. This module has the induction that goes with it, the
equations of a call in terms of its arguments, and what is known of the
one kind of text that is put into a command without quotes: a number
that may stand bare consists of letters, digits, signs and points.
-/

namespace ScriptToShell

open Emit

/-! ## Outcomes -/

section Outcomes

variable {ε α β γ δ : Type}

theorem bind_eq_ok_iff {x : Except ε α} {f : α → Except ε β} {b : β} :
    x >>= f = .ok b ↔ ∃ a, x = .ok a ∧ f a = .ok b := by
  cases x with
  | ok a => exact ⟨fun h => ⟨a, rfl, h⟩, fun ⟨_, ha, h⟩ => by cases ha; exact h⟩
  | error e => exact ⟨nofun, fun ⟨_, ha, _⟩ => nomatch ha⟩

/-- Two outcomes that something is made of. -/
theorem bind₂_eq_ok_iff {x : Except ε α} {y : α → Except ε β} {f : α → β → γ} {c : γ} :
    (x >>= fun a => y a >>= fun b => pure (f a b)) = .ok c
      ↔ ∃ a b, x = .ok a ∧ y a = .ok b ∧ f a b = c := by
  simp [bind_eq_ok_iff, pure, Except.pure]

/-- Three outcomes that something is made of. -/
theorem bind₃_eq_ok_iff {x : Except ε α} {y : α → Except ε β} {z : α → β → Except ε γ}
    {f : α → β → γ → δ} {d : δ} :
    (x >>= fun a => y a >>= fun b => z a b >>= fun c => pure (f a b c)) = .ok d
      ↔ ∃ a b c, x = .ok a ∧ y a = .ok b ∧ z a b = .ok c ∧ f a b c = d := by
  simp [bind_eq_ok_iff, pure, Except.pure]

theorem map_eq_ok_iff {x : Except ε α} {f : α → β} {b : β} :
    x.map f = .ok b ↔ ∃ a, x = .ok a ∧ f a = b := by
  cases x with
  | ok a => simp [Except.map]
  | error e => simp [Except.map]

/-- What a list is mapped to comes from its members. -/
theorem forall_of_mapM_eq_ok {f : α → Except ε β} {as : List α} {bs : List β} {P : β → Prop}
    (h : as.mapM f = .ok bs) (hf : ∀ a ∈ as, ∀ b, f a = .ok b → P b) : ∀ b ∈ bs, P b := by
  induction as generalizing bs with
  | nil =>
    cases h
    exact nofun
  | cons a as ih =>
    rw [List.mapM_cons] at h
    obtain ⟨b, bs', hb, hbs, rfl⟩ := bind₂_eq_ok_iff.1 h
    rw [List.forall_mem_cons] at hf ⊢
    exact ⟨hf.1 b hb, ih hbs hf.2⟩

/-- Each member of a list is mapped to something. -/
theorem exists_of_mapM_eq_ok {f : α → Except ε β} {as : List α} {bs : List β} {a : α}
    (h : as.mapM f = .ok bs) (ha : a ∈ as) : ∃ b ∈ bs, f a = .ok b := by
  induction as generalizing bs with
  | nil => cases ha
  | cons a' as ih =>
    rw [List.mapM_cons] at h
    obtain ⟨b, bs', hb, hbs, rfl⟩ := bind₂_eq_ok_iff.1 h
    rcases List.mem_cons.1 ha with rfl | hmem
    · exact ⟨b, List.mem_cons_self, hb⟩
    · obtain ⟨b', hb', hf⟩ := ih hbs hmem
      exact ⟨b', List.mem_cons_of_mem b hb', hf⟩

theorem length_of_mapM_eq_ok {f : α → Except ε β} {as : List α} {bs : List β}
    (h : as.mapM f = .ok bs) : bs.length = as.length := by
  induction as generalizing bs with
  | nil =>
    cases h
    rfl
  | cons a as ih =>
    rw [List.mapM_cons] at h
    obtain ⟨b, bs', -, hbs, rfl⟩ := bind₂_eq_ok_iff.1 h
    rw [List.length_cons, List.length_cons, ih hbs]

end Outcomes

/-! ## Induction -/

/-- **Induction over expressions.** What holds of an expression as soon as
it holds of the expressions directly inside it holds of every
expression. -/
@[elab_as_elim]
theorem Expr.induction_on {P : Expr → Prop} (e : Expr)
    (identifier : ∀ name span, P (.identifier name span))
    (literal : ∀ value span, P (.literal value span))
    (binary : ∀ op left right span, P left → P right → P (.binary op left right span))
    (logical : ∀ op left right span, P left → P right → P (.logical op left right span))
    (not : ∀ argument span, P argument → P (.not argument span))
    (call : ∀ callee arguments span, P callee → (∀ e ∈ arguments, P e) →
      P (.call callee arguments span))
    (member : ∀ object property span, P object → P (.member object property span))
    (metaProperty : ∀ owner property span, P (.metaProperty owner property span))
    (unsupported : ∀ kind span, P (.unsupported kind span)) : P e :=
  @Expr.rec P (fun arguments => ∀ e ∈ arguments, P e) identifier literal binary logical not call
    member metaProperty unsupported
    (fun _ h => absurd h List.not_mem_nil)
    (fun _ _ he hes => List.forall_mem_cons.2 ⟨he, hes⟩)
    e

/-! ## Operators and fixed texts -/

namespace Emit

/-- The operators of a test command. -/
def testOperators : List String := ["=", "!=", "-lt", "-le", "-gt", "-ge"]

/-- Where printed text may go. -/
def redirections : List String := ["", " >&2"]

theorem mem_testOperators {op : BinaryOp} {span : Span} {o : String}
    (h : testOperator op span = .ok o) : o ∈ testOperators := by
  cases op <;> simp_all [testOperator, testOperators]

theorem token_of_arithmeticOperator {target : Target} {op : BinaryOp} {span : Span} {o : String}
    (h : arithmeticOperator op target span = .ok o) : o = op.token := by
  cases op <;> cases target <;> simp_all [arithmeticOperator, BinaryOp.token]

theorem arithmeticOperator_cases (op : BinaryOp) (target : Target) :
    (∃ text, ∀ span, arithmeticOperator op target span = .ok text)
      ∨ ∃ name, ∀ span,
        arithmeticOperator op target span = .error (.invalidOperator op name span) := by
  cases op <;> cases target <;>
    first
    | exact .inl ⟨_, fun _ => rfl⟩
    | exact .inr ⟨_, fun _ => rfl⟩

theorem mem_redirections {object : Expr} {property redirection : String}
    (h : redirection? object property = some redirection) : redirection ∈ redirections := by
  unfold redirection? at h
  unfold redirections
  grind

/-- The accesses to a property that have a text have one of two. -/
theorem memberText_cases {object : Expr} {property : String} {span : Span} {text : String}
    (h : memberText object property span = .ok text) : text = scriptDir ∨ text = scriptPath := by
  unfold memberText at h
  grind

end Emit

/-! ## Calls -/

namespace Expr

theorem texts_eq_map (target : Target) (arguments : List Expr) :
    texts target arguments = arguments.map (·.text target) := by
  induction arguments with
  | nil => rw [texts, List.map_nil]
  | cons e es ih => rw [texts, List.map_cons, ih]

/-- The arguments of a call, each with its text. -/
theorem zip_texts (target : Target) (arguments : List Expr) :
    arguments.zip (texts target arguments) = arguments.map fun e => (e, e.text target) := by
  rw [texts_eq_map]
  induction arguments with
  | nil => rfl
  | cons e es ih => rw [List.map_cons, List.zip_cons_cons, ih, List.map_cons]

/-- An argument as a word: a decimal number as it is, anything else as a
value. -/
def argument (target : Target) (e : Expr) : Except Fault String := e.embedArgument (e.text target)

/-- A call by name is the name and the arguments. -/
theorem callText_identifier (target : Target) (name : String) (s span : Span)
    (arguments : List Expr) :
    callText (.identifier name s) arguments span (texts target arguments)
      = (arguments.mapM (argument target)).map fun words => Text.joinWith " " (name :: words) := by
  rw [callText, zip_texts, List.mapM_map]
  rfl

/-- A call of a method is a command for each argument if the method
prints, and a fault otherwise. -/
theorem callText_member (target : Target) (object : Expr) (property : String) (s span : Span)
    (arguments : List Expr) :
    callText (.member object property s) arguments span (texts target arguments)
      = match redirection? object property with
        | some redirection => (arguments.mapM (value target)).map fun values =>
            if values.isEmpty then "echo" ++ redirection
            else Text.joinWith "\n" (values.map fun v => "echo " ++ v ++ redirection)
        | none => .error (.notSupportedFor .callExpression
            "only console.log, console.error and console.warn can be called as methods" span) := by
  rw [callText, zip_texts]
  cases redirection? object property with
  | none => rfl
  | some redirection =>
    rw [List.mapM_map]
    show ((arguments.mapM (value target)) >>= fun values => _) = _
    cases arguments.mapM (value target) with
    | error fault => rfl
    | ok values =>
      show (if values.isEmpty = true then _ else _)
        = Except.ok (if values.isEmpty = true then _ else _)
      split <;> rfl

end Expr

/-! ## Bare numbers -/

/-- Letters and digits are no white space. -/
theorem Text.isBlank_of_isAlphanum {c : Char} (h : c.isAlphanum = true) : isBlank c = false := by
  unfold Char.isAlphanum Char.isAlpha Char.isUpper Char.isLower Char.isDigit at h
  simp only [Bool.or_eq_true, Bool.and_eq_true, decide_eq_true_eq, UInt32.le_iff_toNat_le,
    ge_iff_le] at h
  change ((65 ≤ c.toNat ∧ c.toNat ≤ 90) ∨ (97 ≤ c.toNat ∧ c.toNat ≤ 122))
    ∨ (48 ≤ c.toNat ∧ c.toNat ≤ 57) at h
  simp [isBlank]
  omega

namespace Numeral

/-- A character that may be part of a bare number. -/
def IsBareChar (c : Char) : Prop := c.isAlphanum = true ∨ c = '+' ∨ c = '-' ∨ c = '.'

instance : DecidablePred IsBareChar :=
  fun c => inferInstanceAs (Decidable (c.isAlphanum = true ∨ c = '+' ∨ c = '-' ∨ c = '.'))

theorem IsBareChar.of_isDigit {c : Char} (h : c.isDigit = true) : IsBareChar c := by
  refine .inl ?_
  show (c.isAlpha || c.isDigit) = true
  rw [h, Bool.or_true]

/-- Only letters have letters for their small form. -/
theorem IsBareChar.of_toLower {c : Char} (h : c.toLower.isAlphanum = true) : IsBareChar c := by
  by_cases hu : c.isUpper = true
  · refine .inl ?_
    show (c.isUpper || c.isLower || c.isDigit) = true
    rw [hu, Bool.true_or, Bool.true_or]
  · have hlower : c.toLower = c := dif_neg fun hrange => hu (decide_eq_true hrange)
    rw [hlower] at h
    exact .inl h

/-- Taking a sign off takes nothing else off. -/
theorem isBareChar_of_dropSign {cs : List Char} (h : ∀ c ∈ dropSign cs, IsBareChar c) :
    ∀ c ∈ cs, IsBareChar c := by
  intro c hc
  unfold dropSign at h
  split at h
  · rcases List.mem_cons.1 hc with rfl | hc
    · exact .inr (.inl rfl)
    · exact h c hc
  · rcases List.mem_cons.1 hc with rfl | hc
    · exact .inr (.inr (.inl rfl))
    · exact h c hc
  · exact h c hc

theorem isBareChar_of_exponent? {cs : List Char} (h : (exponent? cs).isSome = true) :
    ∀ c ∈ cs, IsBareChar c := by
  cases cs with
  | nil => exact fun c hc => absurd hc List.not_mem_nil
  | cons e cs =>
    rw [exponent?] at h
    by_cases he : e = 'e' ∨ e = 'E'
    · have hdigits : dropSign cs ≠ [] ∧ ∀ c ∈ dropSign cs, c.isDigit = true := by
        simpa [he] using h
      refine List.forall_mem_cons.2
        ⟨?_, isBareChar_of_dropSign fun c hc => .of_isDigit (hdigits.2 c hc)⟩
      rcases he with rfl | rfl <;> exact .inl (by decide)
    · simp [he] at h

/-- Digits at the front do not matter. -/
theorem isBareChar_of_dropWhile {cs : List Char}
    (h : ∀ c ∈ cs.dropWhile Char.isDigit, IsBareChar c) : ∀ c ∈ cs, IsBareChar c := by
  intro c hc
  rw [← List.takeWhile_append_dropWhile (p := Char.isDigit) (l := cs)] at hc
  rcases List.mem_append.1 hc with hc | hc
  · exact .of_isDigit (List.all_eq_true.1 List.all_takeWhile c hc)
  · exact h c hc

theorem isBareChar_of_decimal? {cs : List Char} (h : (decimal? cs).isSome = true) :
    ∀ c ∈ cs, IsBareChar c := by
  refine isBareChar_of_dropWhile ?_
  unfold decimal? at h
  dsimp only at h
  split at h
  · rename_i hrest
    rw [hrest]
    dsimp only at h
    split at h
    · cases h
    · rw [Option.isSome_map] at h
      exact List.forall_mem_cons.2
        ⟨.inr (.inr (.inr rfl)), isBareChar_of_dropWhile (isBareChar_of_exponent? h)⟩
  · dsimp only at h
    split at h
    · cases h
    · rw [Option.isSome_map] at h
      exact isBareChar_of_exponent? h

/-- **A bare number consists of letters, digits, signs and points.** -/
theorem isBareChar_of_isBare {text : String} (h : isBare text = true) :
    ∀ c ∈ text.toList, IsBareChar c := by
  have hword : ∀ (word : String) (body : List Char), word.toList.all Char.isAlphanum = true →
      String.ofList (body.map Char.toLower) = word → ∀ c ∈ body, IsBareChar c := by
    rintro _ body hletters rfl c hc
    refine .of_toLower (List.all_eq_true.1 hletters c.toLower ?_)
    rw [String.toList_ofList]
    exact List.mem_map_of_mem hc
  refine isBareChar_of_dropSign ?_
  unfold isBare float? at h
  dsimp only at h
  split at h
  · rename_i hinf
    rcases hinf with hinf | hinf
    · exact hword _ _ (by decide) hinf
    · exact hword _ _ (by decide) hinf
  · split at h
    · rename_i hnan
      exact hword _ _ (by decide) hnan
    · exact isBareChar_of_decimal? h

end Numeral

end ScriptToShell
