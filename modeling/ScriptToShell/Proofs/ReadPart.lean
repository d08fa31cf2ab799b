import Mathlib.Data.Option.Basic
import ScriptToShell.Grammar.Markup
import ScriptToShell.Grammar.Member
import ScriptToShell.Proofs.ReadNode

/-!
# Parts of expressions that are read in tandem

Patterns, functions, objects, classes and markup have no counterpart in a
script, so most of their readers keep no node: what they have to agree on is
where they stop. Each rule is followed along its text, with readers that agree
for what it contains.
-/

namespace ScriptToShell.Grammar

open Scan

/-! ## Tokens -/

theorem digits?_takes (isDigit : Char → Bool) : Lexeme.Takes 1 (digits? isDigit) := by
  intro cs count h
  unfold digits? at h
  split at h
  · cases h
  · grind

theorem based?_takes (lower upper : Char) (isDigit : Char → Bool) :
    Lexeme.Takes 1 (based? lower upper isDigit) := by
  intro cs count h
  unfold based? at h
  grind [Option.map_eq_some_iff]

theorem wholePart?_takes : Lexeme.Takes 1 wholePart? := by
  intro cs count h
  unfold wholePart? at h
  grind

theorem point?_takes : Lexeme.Takes 1 point? := by
  intro cs count h
  unfold point? at h
  grind

theorem thenOption_takes {first second : Lexeme} (h : first.Takes 1) :
    Lexeme.Takes 1 (thenOption first second) := by
  intro cs count hcount
  obtain ⟨n, hn, rfl⟩ := Option.map_eq_some_iff.1 hcount
  exact Nat.le_trans (h cs n hn) (Nat.le_add_right n _)

theorem thenToken_takes {first second : Lexeme} (h : first.Takes 1) :
    Lexeme.Takes 1 (thenToken first second) := by
  intro cs count hcount
  obtain ⟨n, hn, hrest⟩ := Option.bind_eq_some_iff.1 hcount
  obtain ⟨m, -, rfl⟩ := Option.map_eq_some_iff.1 hrest
  exact Nat.le_trans (h cs n hn) (Nat.le_add_right n m)

/-- A number takes a character at least, whatever its form. -/
theorem number?_takes : Lexeme.Takes 1 number? := by
  have hforms : ∀ form ∈ numberForms, Lexeme.Takes 1 form := by
    simp only [numberForms, List.forall_mem_cons, List.not_mem_nil, false_implies, implies_true,
      and_true]
    have hwhole := wholePart?_takes
    exact ⟨thenOption_takes (based?_takes _ _ _), thenOption_takes (based?_takes _ _ _),
      thenOption_takes (based?_takes _ _ _), thenOption_takes (digits?_takes _),
      thenOption_takes (thenOption_takes (thenToken_takes hwhole)),
      thenOption_takes (thenToken_takes point?_takes), thenToken_takes hwhole⟩
  intro cs count h
  obtain ⟨form, hform, hcount⟩ := List.mem_filterMap.1 (List.max?_mem h)
  exact hforms form hform cs count hcount

theorem regex?_takes : Lexeme.Takes 1 regex? := by
  intro cs count h
  unfold regex? at h
  grind

theorem markupName?_takes : Lexeme.Takes 1 markupName? := by
  intro cs count h
  unfold markupName? at h
  obtain hhyphenated | ⟨-, hname⟩ := (Option.orElse_eq_some _ _ _).1 h
  · split at hhyphenated <;> grind
  · exact name?_takes cs count hname

theorem reference?_takes : Lexeme.Takes 1 reference? := by
  intro cs count h
  unfold reference? at h
  grind

theorem attributeString?_takes : Lexeme.Takes 1 attributeString? := by
  intro cs count h
  unfold attributeString? at h
  grind [Option.map_eq_some_iff]

theorem markupText?_takes : Lexeme.Takes 1 markupText? := by
  intro cs count h
  unfold markupText? at h
  grind

variable {text : List Char} {shift depth i start : Nat} {R R' : Readers}

/-! ## Patterns -/

variable (hR : R.Agree text shift depth R')
include hR

theorem tandem_propertyName (hi : text.length ≤ i + depth + 1) :
    Tandem text shift i (propertyName R) (propertyName R') (Same i 1) := by
  refine (tandem_name.discard fun _ _ _ h => h.2).orElse <|
    (tandem_privateName.discard fun _ _ _ h => h.2).orElse <|
    (tandem_string.discard fun _ _ _ h => h.2).orElse <|
    ((tandem_token number?_takes).discard fun _ _ _ h => h.2).orElse ?_
  refine (tandem_literal "[" (by decide)).next fun _ j hj => tandem_gap.next fun _ l hl => ?_
  refine (hR.expression false 0 l (by omega)).bind fun _ _ m ⟨hm, _⟩ => ?_
  exact (tandem_symbol "]" (by decide)).since (by omega)

theorem tandem_initializer (semi : Bool)
    (hi : text.length ≤ i + depth + 1) :
    Tandem text shift i (initializer R semi) (initializer R' semi)
      (Past i 1 (Twin text shift i)) := by
  refine tandem_equalsSign.next fun _ j hj => tandem_gap.next fun _ l hl => ?_
  refine (hR.expression semi 0 l (by omega)).bind fun o o' m ⟨hm, ho⟩ => ?_
  exact .pure ⟨by omega, ho.expr.widen (by omega) (Nat.le_refl m)⟩

omit hR in
theorem tandem_commaSeparated {part part' : Reader Unit}
    (h : ∀ j, i ≤ j → Tandem text shift j part part' (Same j 0)) :
    Tandem text shift i (commaSeparated part) (commaSeparated part') (Same i 0) := by
  have hslot : ∀ j, i ≤ j → Tandem text shift j
      (do
        Reader.gap
        let _ ← Reader.option part)
      (do
        Reader.gap
        let _ ← Reader.option part') (Same j 0) := by
    intro j hj
    refine tandem_gap.next fun _ l hl => ?_
    exact (h l (by omega)).option_same.discard fun _ _ _ h => Nat.le_trans hl h.2
  refine (hslot i (Nat.le_refl i)).next fun _ j hj => ?_
  refine (Tandem.many_same fun l hl => ?_).discard fun _ _ _ h => Nat.le_trans hj h.2
  exact (tandem_symbol "," (by decide)).next fun _ m hm => (hslot m (by omega)).since (by omega)

theorem tandem_arrayPattern (hi : text.length ≤ i + depth + 1) :
    Tandem text shift i (arrayPattern R) (arrayPattern R') (Same i 1) := by
  refine (tandem_literal "[" (by decide)).next fun _ j hj => ?_
  refine (tandem_commaSeparated fun l hl => ?_).next fun _ m hm => ?_
  · exact (hR.pattern l (by omega)).discard fun _ _ _ h => Nat.le_of_succ_le h.1
  · exact (tandem_symbol "]" (by decide)).since (by omega)

theorem tandem_objectPatternPart (hi : text.length ≤ i + depth) :
    Tandem text shift i (objectPatternPart R) (objectPatternPart R') (Same i 0) := by
  refine .orElse ?_ (.orElse ?_ ?_)
  · refine .ahead ((Tandem.require _).peek fun _ => ?_)
    exact (hR.pattern i hi).discard fun _ _ _ h => Nat.le_of_succ_le h.1
  · refine (tandem_propertyName hR (by omega)).next fun _ j hj => ?_
    refine (tandem_symbol ":" (by decide)).next fun _ l hl => tandem_gap.next fun _ m hm => ?_
    exact (hR.pattern m (by omega)).discard_past (by omega)
  · refine tandem_name.next fun _ j hj => ?_
    exact ((tandem_initializer hR false (by omega)).ends (by omega)).option_ends.discard
      fun _ _ _ h => by omega

theorem tandem_objectPattern (hi : text.length ≤ i + depth + 1) :
    Tandem text shift i (objectPattern R) (objectPattern R') (Same i 1) := by
  refine (tandem_literal _ (by decide)).next fun _ j hj => ?_
  refine (tandem_commaSeparated fun l hl => ?_).next fun _ m hm => ?_
  · exact tandem_objectPatternPart hR (by omega)
  · exact (tandem_symbol _ (by decide)).since (by omega)

theorem tandem_bindingTarget (hi : text.length ≤ i + depth + 1) :
    Tandem text shift i (bindingTarget R) (bindingTarget R') (Past i 1 (Twin text shift i)) := by
  refine .pos (.orElse ?_ (.orElse ?_ ?_))
  · refine tandem_name.next fun name j hj => tandem_spanFrom (.pure ⟨hj, ?_⟩)
    exact (Pattern.isLeaf_identifier name).twin (by omega)
  · refine (tandem_arrayPattern hR hi).next fun _ j hj => tandem_spanFrom (.pure ⟨hj, ?_⟩)
    exact (Pattern.isLeaf_unsupported _).twin (by omega)
  · refine (tandem_objectPattern hR hi).next fun _ j hj => tandem_spanFrom (.pure ⟨hj, ?_⟩)
    exact (Pattern.isLeaf_unsupported _).twin (by omega)

/-- The parameters of a function. -/
theorem tandem_parameters (hi : text.length ≤ i + depth + 1) :
    Tandem text shift i (parameters R) (parameters R') (Past i 1 (TwinList text shift i)) := by
  have hmark := Pattern.isLeaf_unsupported markKind
  refine (tandem_literal "(" (by decide)).next fun _ j hj =>
    tandem_marks.bind fun marks marks' l hmarks => ?_
  obtain ⟨rfl, hrow⟩ := hmarks
  have hl := hrow.le
  have hbefore : TwinList text shift i (marks.map markPattern) _ l :=
    hmark.twinList (hrow.widen (by omega))
  refine (hR.pattern l (by omega)).option.bind fun first first' m hfirst => ?_
  cases hfirst with
  | none =>
    exact (tandem_literal ")" (by decide)).next fun _ n hn =>
      .pure ⟨by omega, hbefore.widen (Nat.le_refl i) (by omega)⟩
  | @some first first' _ hfirst =>
    obtain ⟨hm, hfirst⟩ := hfirst
    have hgroup : ∀ n, m ≤ n → Tandem text shift n
        (do
          symbol ","
          let marks ← Reader.marks
          let next ← R.pattern
          return marks.map markPattern ++ [next])
        (do
          symbol ","
          let marks ← Reader.marks
          let next ← R'.pattern
          return marks.map markPattern ++ [next]) (TwinList text shift n) := by
      intro n hn
      refine (tandem_symbol "," (by decide)).next fun _ p hp =>
        tandem_marks.bind fun marks marks' q hmarks => ?_
      obtain ⟨rfl, hrow⟩ := hmarks
      have hq := hrow.le
      refine (hR.pattern q (by omega)).bind fun x x' u ⟨hu, hx⟩ => .pure ?_
      exact (hmark.twinList (hrow.widen (by omega))).append (.single hx)
    refine (Tandem.many hgroup fun _ _ _ _ h => h.le).bind fun more more' n hmore => ?_
    have hmore := TwinList.of_rounds hmore
    have hn := hmore.le
    have hlast : Tandem text shift n
        (do
          symbol ","
          Reader.marks)
        (do
          symbol ","
          Reader.marks) (MarkTwins text shift n) :=
      (tandem_symbol "," (by decide)).next fun _ p hp =>
        tandem_marks.mono fun _ _ _ h => ⟨h.moved, h.row.widen (by omega)⟩
    refine hlast.option.bind fun last last' p hlast => ?_
    have hlast : TwinList text shift n ((last.getD []).map markPattern)
        ((last'.getD []).map markPattern) p := by
      cases hlast with
      | none => exact .nil (Nat.le_refl n)
      | some h => exact h.moved ▸ hmark.twinList h.row
    have hp := hlast.le
    refine (tandem_symbol ")" (by decide)).next fun _ q hq => .pure ⟨by omega, ?_⟩
    exact ((hbefore.append (.cons hfirst hmore)).append hlast).widen (Nat.le_refl i) (by omega)

/-! ## Functions, objects and classes -/

theorem tandem_functionRest (bare : Bool)
    (hi : text.length ≤ i + depth + 1) :
    Tandem text shift i (functionRest R bare) (functionRest R' bare)
      (Past i 1 fun x x' j => ∃ l, TwinList text shift i x.1 x'.1 l
        ∧ TwinList text shift l x.2 x'.2 j) := by
  refine tandem_gap.next fun _ j hj => ?_
  refine (tandem_parameters hR (by omega)).bind fun params params' l ⟨hl, hparams⟩ => ?_
  refine tandem_gap.next fun _ m hm => ?_
  refine (tandem_block hR bare (by omega)).bind fun body body' n ⟨hn, hbody⟩ => .pure ?_
  exact ⟨by omega, m, hparams.widen (by omega) (by omega), hbody⟩

omit hR in
theorem tandem_withModifier {modifier modifier' reader reader' : Reader Unit}
    (hm : Tandem text shift i modifier modifier' (Same i 1))
    (h : ∀ j, i ≤ j → Tandem text shift j reader reader' (Same j 1)) :
    Tandem text shift i (withModifier modifier reader) (withModifier modifier' reader')
      (Same i 1) :=
  .orElse (hm.next fun _ _ hj => tandem_gap.next fun _ l hl => (h l (by omega)).since (by omega))
    (h i (Nat.le_refl i))

theorem tandem_method (hi : text.length ≤ i + depth + 1) :
    Tandem text shift i (method R) (method R') (Same i 1) := by
  refine tandem_withModifier (tandem_keyword "static") fun j hj => ?_
  refine tandem_withModifier (tandem_keyword "async") fun l hl => ?_
  refine tandem_withModifier ?_ fun m hm => ?_
  · exact (tandem_keyword "get").orElse
      ((tandem_keyword "set").orElse (tandem_literal "*" (by decide)))
  · refine (tandem_propertyName hR (by omega)).next fun _ n hn => ?_
    exact (tandem_functionRest hR true (by omega)).discard_past (by omega)

theorem tandem_property (hi : text.length ≤ i + depth) :
    Tandem text shift i (property R) (property R') (Same i 1) := by
  refine .orElse ?_ (.orElse (tandem_method hR (by omega)) (.orElse ?_ ?_))
  · refine (tandem_literal "..." (by decide)).next fun _ j hj => tandem_gap.next fun _ l hl => ?_
    exact (hR.expression false 0 l (by omega)).discard_past (by omega)
  · refine (tandem_propertyName hR (by omega)).next fun _ j hj => ?_
    refine (tandem_symbol ":" (by decide)).next fun _ l hl => tandem_gap.next fun _ m hm => ?_
    exact (hR.expression false 0 m (by omega)).discard_past (by omega)
  · exact tandem_name.discard fun _ _ _ h => h.2

theorem tandem_object (hi : text.length ≤ i + depth + 1) :
    Tandem text shift i (object R) (object R') (Same i 1) := by
  refine (tandem_literal _ (by decide)).next fun _ j hj => ?_
  refine (tandem_commaSeparated fun l hl => ?_).next fun _ m hm => ?_
  · exact (tandem_property hR (by omega)).since (by omega)
  · exact (tandem_symbol _ (by decide)).since (by omega)

theorem tandem_decorator (hi : text.length ≤ i + depth + 1) :
    Tandem text shift i (decorator R) (decorator R') (Same i 1) := by
  refine (tandem_literal "@" (by decide)).next fun _ j hj => tandem_gap.next fun _ l hl => ?_
  refine tandem_name.next fun _ m hm => (Tandem.many_same fun n hn => ?_).next fun _ p hp => ?_
  · refine (tandem_symbol "." (by decide)).next fun _ q hq => tandem_gap.next fun _ u hu => ?_
    exact tandem_name.discard fun _ _ _ h => by
      have := h.2
      omega
  · exact (tandem_optionalArguments hR (by omega)).discard fun _ _ _ h => by omega

theorem tandem_decorators (hi : text.length ≤ i + depth + 1) :
    Tandem text shift i (decorators R) (decorators R') (Same i 0) := by
  refine (Tandem.many_same fun j hj => ?_).discard fun _ _ _ h => h.2
  refine (tandem_decorator hR (by omega)).next fun _ l hl => ?_
  exact tandem_gap.since (by omega)

theorem tandem_field (hi : text.length ≤ i + depth + 1) :
    Tandem text shift i (field R) (field R') (Same i 1) := by
  refine tandem_withModifier (tandem_keyword "static") fun j hj => ?_
  refine (tandem_propertyName hR (by omega)).next fun _ l hl => ?_
  refine (tandem_atSupplied true).peek fun bare => ?_
  refine .optionUnless (fun _ => tandem_initializer hR true (by omega))
    fun init init' m hmaybe => ?_
  have hm := hmaybe.le fun _ _ _ h => Nat.le_of_succ_le h.1
  cases hmaybe with
  | none => exact (tandem_semicolon _).since (by omega)
  | some _ => exact (tandem_semicolon _).since (by omega)

theorem tandem_classMember (hi : text.length ≤ i + depth + 1) :
    Tandem text shift i (classMember R) (classMember R') (Same i 1) := by
  refine (tandem_literal ";" (by decide)).orElse (.orElse ?_ (.orElse ?_ ?_))
  · refine (tandem_keyword "static").next fun _ j hj => tandem_gap.next fun _ l hl => ?_
    exact (tandem_block hR true (by omega)).discard_past (by omega)
  · refine (tandem_decorators hR hi).next fun _ j hj => ?_
    refine (tandem_method hR (by omega)).next fun _ l hl => ?_
    exact (tandem_nextSymbol ";" (by decide)).option_same.discard fun _ _ _ h => by
      have := h.2
      omega
  · refine (tandem_decorators hR hi).next fun _ j hj => ?_
    exact (tandem_field hR (by omega)).since (by omega)

theorem tandem_classBody (hi : text.length ≤ i + depth + 1) :
    Tandem text shift i (classBody R) (classBody R') (Same i 1) := by
  refine (tandem_literal _ (by decide)).next fun _ j hj => ?_
  refine (Tandem.many_same fun l hl => ?_).next fun _ m hm => ?_
  · refine tandem_gap.next fun _ n hn => ?_
    exact (tandem_classMember hR (by omega)).since (by omega)
  · exact (tandem_nextSymbol _ (by decide)).since (by omega)

theorem tandem_classRest (hi : text.length ≤ i + depth + 1) :
    Tandem text shift i (classRest R) (classRest R') (Same i 1) := by
  refine tandem_gap.next fun _ j hj => ?_
  have hname : Tandem text shift j
      (do
        Reader.require (headName? (← Reader.ahead) ≠ some "extends")
        Reader.name)
      (do
        Reader.require (headName? (← Reader.ahead) ≠ some "extends")
        Reader.name) (Same j 1) :=
    .ahead ((Tandem.require _).peek fun _ => tandem_name)
  refine hname.option_same.next fun _ l hl => ?_
  have hextends : Tandem text shift l
      (do
        nextKeyword "extends"
        Reader.gap
        R.assignment false)
      (do
        nextKeyword "extends"
        Reader.gap
        R'.assignment false) (Ends l) := by
    refine (tandem_nextKeyword _).next fun _ m hm => tandem_gap.next fun _ n hn => ?_
    exact (hR.expression false 0 n (by omega)).ends (by omega)
  refine hextends.option_ends.bind fun _ _ m hm => tandem_gap.next fun _ n hn => ?_
  exact (tandem_classBody hR (by omega)).since (by omega)

/-! ## Markup and templates -/

omit hR in
theorem tandem_elementName : Tandem text shift i elementName elementName (Same i 1) := by
  refine (tandem_token markupName?_takes).next fun _ j hj => .orElse ?_ ?_
  · refine (tandem_nextSymbol ":" (by decide)).next fun _ l hl => tandem_gap.next fun _ m hm => ?_
    exact ((tandem_token markupName?_takes).since (by omega)).discard fun _ _ _ h => h.2
  · refine (Tandem.many_same fun l hl => ?_).discard fun _ _ _ h => by
      have := h.2
      omega
    refine (tandem_nextSymbol "." (by decide)).next fun _ m hm => tandem_gap.next fun _ n hn => ?_
    exact tandem_name.since (by omega)

theorem tandem_embedded (hi : text.length ≤ i + depth + 1) :
    Tandem text shift i (embedded R) (embedded R') (Same i 1) := by
  refine (tandem_literal _ (by decide)).next fun _ j hj => tandem_gap.next fun _ l hl => ?_
  have hinner : Tandem text shift l
      (do
        let _ ← Reader.option do
          Reader.literal "..."
          Reader.gap
        expressions R false)
      (do
        let _ ← Reader.option do
          Reader.literal "..."
          Reader.gap
        expressions R' false) (Ends l) := by
    have hspread : Tandem text shift l
        (do
          Reader.literal "..."
          Reader.gap)
        (do
          Reader.literal "..."
          Reader.gap) (Same l 0) :=
      (tandem_literal "..." (by decide)).next fun _ m hm => tandem_gap.since (by omega)
    refine hspread.option_same.next fun _ m hm => ?_
    exact (tandem_expressions hR false (by omega)).ends (by omega)
  refine hinner.option_ends.bind fun _ _ m hm => ?_
  exact (tandem_symbol _ (by decide)).since (by omega)

theorem tandem_attributeRule (hi : text.length ≤ i + depth + 1) :
    Tandem text shift i (attributeRule R) (attributeRule R') (Same i 1) := by
  refine (tandem_embedded hR hi).orElse ?_
  refine (tandem_token markupName?_takes).next fun _ j hj => ?_
  have hspace : Tandem text shift j
      (do
        nextSymbol ":"
        Reader.gap
        Reader.token markupName?)
      (do
        nextSymbol ":"
        Reader.gap
        Reader.token markupName?) (Same j 0) :=
    (tandem_nextSymbol ":" (by decide)).next fun _ l hl => tandem_gap.next fun _ m hm =>
      (tandem_token markupName?_takes).since (by omega)
  refine hspace.option_same.next fun _ l hl => ?_
  have hvalue : Tandem text shift l
      (do
        nextSymbol "="
        Reader.gap
        embedded R <|> R.element <|> (do let _ ← Reader.token attributeString?))
      (do
        nextSymbol "="
        Reader.gap
        embedded R' <|> R'.element <|> (do let _ ← Reader.token attributeString?)) (Same l 0) := by
    refine (tandem_nextSymbol "=" (by decide)).next fun _ m hm => tandem_gap.next fun _ n hn => ?_
    refine .since (.orElse (tandem_embedded hR (by omega)) ?_) (by omega)
    refine (hR.element n (by omega)).orElse ?_
    exact (tandem_token attributeString?_takes).discard fun _ _ _ h => h.2
  exact hvalue.option_same.discard fun _ _ _ h => by
    have := h.2
    omega

theorem tandem_child (hi : text.length ≤ i + depth + 1) :
    Tandem text shift i (child R) (child R') (Same i 0) := by
  refine .orElse ?_ (.orElse ?_ (.orElse ?_ ?_))
  · exact (tandem_token markupText?_takes).discard fun _ _ _ h => Nat.le_of_succ_le h.2
  · exact (tandem_token reference?_takes).discard fun _ _ _ h => Nat.le_of_succ_le h.2
  · exact (tandem_embedded hR (by omega)).since (by omega)
  · exact .ahead ((Tandem.require _).peek fun _ => (hR.element i hi).since (by omega))

theorem tandem_children (hi : text.length ≤ i + depth + 1) :
    Tandem text shift i (children R) (children R') (Same i 1) := by
  refine (Tandem.many_same fun j hj => tandem_child hR (by omega)).next fun _ j hj => ?_
  refine (tandem_literal "</" (by decide)).next fun _ l hl => tandem_gap.next fun _ m hm => ?_
  refine tandem_elementName.option_same.next fun _ n hn => ?_
  exact (tandem_nextSymbol ">" (by decide)).since (by omega)

/-- Elements of markup. -/
theorem tandem_elementRule (hi : text.length ≤ i + depth + 2) :
    Tandem text shift i (elementRule R) (elementRule R') (Same i 1) := by
  refine (tandem_literal "<" (by decide)).next fun _ j hj => .orElse ?_ ?_
  · refine (tandem_nextSymbol ">" (by decide)).next fun _ l hl => ?_
    exact (tandem_children hR (by omega)).since (by omega)
  · refine tandem_gap.next fun _ l hl => tandem_elementName.next fun _ m hm => ?_
    refine (Tandem.many_same fun n hn => ?_).next fun _ n hn => ?_
    · refine tandem_gap.next fun _ p hp => ?_
      exact (tandem_attributeRule hR (by omega)).since (by omega)
    · refine .orElse ((tandem_nextSymbol "/>" (by decide)).since (by omega)) ?_
      refine (tandem_nextSymbol ">" (by decide)).next fun _ p hp => ?_
      exact (tandem_children hR (by omega)).since (by omega)

omit hR in
theorem tandem_templateChars : Tandem text shift i
    (Reader.token fun cs => templateChars (cs.length + 1) cs)
    (Reader.token fun cs => templateChars (cs.length + 1) cs) (Same i 0) :=
  tandem_token (Lexeme.takes_zero _)

theorem tandem_templatePart (hi : text.length ≤ i + depth + 1) :
    Tandem text shift i (templatePart R) (templatePart R') (Same i 1) := by
  refine (tandem_literal _ (by decide)).next fun _ j hj => tandem_gap.next fun _ l hl => ?_
  refine (tandem_expressions hR false (by omega)).bind fun _ _ m ⟨hm, _⟩ => ?_
  refine (tandem_symbol _ (by decide)).next fun _ n hn => ?_
  exact (tandem_templateChars.since (by omega)).discard fun _ _ _ h => h.2

theorem tandem_template (hi : text.length ≤ i + depth + 1) :
    Tandem text shift i (template R) (template R') (Same i 1) := by
  refine (tandem_literal "`" (by decide)).next fun _ j hj =>
    tandem_templateChars.next fun _ l hl => ?_
  refine (Tandem.many_same fun m hm => ?_).next fun _ m hm => ?_
  · exact (tandem_templatePart hR (by omega)).since (by omega)
  · exact (tandem_literal "`" (by decide)).since (by omega)

end ScriptToShell.Grammar
