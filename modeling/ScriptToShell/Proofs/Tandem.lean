import ScriptToShell.Grammar.Readers
import ScriptToShell.Proofs.Reader

/-!
# Readers in tandem

What is read from a text does not depend on where the text starts. To say so,
two readers run side by side: one in a text, and one at the same place of a
text with something before it. They are **in tandem** if both fail, or both
succeed, stop at the same place again and give values that stand in a given
relation (`Tandem`).

There is one law for each way of putting readers together, so that a rule of
the grammar is followed along its own text. What is asked of the values may
speak of the place where the reader stops. Most readers of tokens give the
same value twice and take a number of characters at least (`Same`), or take
none at all (`Stays`).
-/

/-- A span with some bytes more before it. -/
def ScriptToShell.Span.moved (shift : Nat) (s : Span) : Span := ⟨s.start + shift, s.stop + shift⟩

namespace ScriptToShell.Scan

variable {α β : Type}

/-- A place with some bytes more before it. -/
def Cursor.moved (shift : Nat) (c : Cursor) : Cursor := ⟨c.pos + shift, c.rest⟩

/-- **Two readers in tandem**, from a place in a text and the same place moved
on. What is asked of the values may depend on the place where they stop. -/
def Tandem (text : List Char) (shift i : Nat) (r r' : Reader α) (post : α → α → Nat → Prop) :
    Prop :=
  (r (.at text i) = none ∧ r' ((Cursor.at text i).moved shift) = none)
    ∨ ∃ a a' j, r (.at text i) = some (a, .at text j)
      ∧ r' ((Cursor.at text i).moved shift) = some (a', (Cursor.at text j).moved shift)
      ∧ post a a' j

/-- The same value twice, behind at least a number of characters. -/
def Same (i count : Nat) (a a' : α) (j : Nat) : Prop := a' = a ∧ i + count ≤ j

/-- The same value twice, with nothing read. -/
def Stays (i : Nat) (a a' : α) (j : Nat) : Prop := a' = a ∧ j = i

/-- Values that stand in a relation, behind at least a number of characters. -/
def Past (i count : Nat) (P : α → α → Nat → Prop) (a a' : α) (j : Nat) : Prop :=
  i + count ≤ j ∧ P a a' j

/-- Any values, behind a place. -/
abbrev Ends (low : Nat) (_ _ : α) (j : Nat) : Prop := low ≤ j

/-- Two values that may be missing, both of them at once. -/
inductive Maybe (i : Nat) (post : α → α → Nat → Prop) : Option α → Option α → Nat → Prop
  | none : Maybe i post none none i
  | some {a a' : α} {j : Nat} (h : post a a' j) : Maybe i post (some a) (some a') j

/-- Values read one after the other, each from where the last one stopped. -/
inductive Rounds (post : Nat → α → α → Nat → Prop) : Nat → List α → List α → Nat → Prop
  | nil {i : Nat} : Rounds post i [] [] i
  | cons {i j l : Nat} {a a' : α} {as as' : List α} (head : post i a a' j)
      (tail : Rounds post j as as' l) : Rounds post i (a :: as) (a' :: as') l

theorem Maybe.le {post : α → α → Nat → Prop} {i j : Nat} {a a' : Option α}
    (h : Maybe i post a a' j) (hpost : ∀ a a' j, post a a' j → i ≤ j) : i ≤ j := by
  cases h with
  | none => exact Nat.le_refl i
  | some h => exact hpost _ _ _ h

namespace Rounds

variable {post post' : Nat → α → α → Nat → Prop} {i j : Nat} {as as' : List α}

theorem mono (h : Rounds post i as as' j) (hpost : ∀ i a a' j, post i a a' j → post' i a a' j) :
    Rounds post' i as as' j := by
  induction h with
  | nil => exact .nil
  | cons head _ ih => exact .cons (hpost _ _ _ _ head) ih

theorem le (h : Rounds post i as as' j) (hpost : ∀ i a a' j, post i a a' j → i ≤ j) : i ≤ j := by
  induction h with
  | nil => exact Nat.le_refl _
  | cons head _ ih => exact Nat.le_trans (hpost _ _ _ _ head) ih

theorem length_eq (h : Rounds post i as as' j) : as'.length = as.length := by
  induction h with
  | nil => rfl
  | cons _ _ ih => exact congrArg (· + 1) ih

end Rounds

namespace Tandem

variable {text : List Char} {shift i count : Nat} {r r' s s' : Reader α} {f f' : α → Reader β}
  {P : α → α → Nat → Prop} {Q : β → β → Nat → Prop}

/-! ## Sequences and choices -/

theorem mono (h : Tandem text shift i r r' P) {P' : α → α → Nat → Prop}
    (hP : ∀ a a' j, P a a' j → P' a a' j) : Tandem text shift i r r' P' := by
  obtain hnone | ⟨a, a', j, hr, hr', hpost⟩ := h
  · exact .inl hnone
  · exact .inr ⟨a, a', j, hr, hr', hP a a' j hpost⟩

theorem pure {a a' : α} (h : P a a' i) :
    Tandem text shift i (Pure.pure a) (Pure.pure a') P :=
  .inr ⟨a, a', i, rfl, rfl, h⟩

theorem failure : Tandem text shift i (Alternative.failure : Reader α) Alternative.failure P :=
  .inl ⟨rfl, rfl⟩

theorem failure_bind :
    Tandem text shift i (Alternative.failure >>= f) (Alternative.failure >>= f') Q :=
  .inl ⟨rfl, rfl⟩

/-- The second reader fails where the first does. -/
theorem none_of_none (h : Tandem text shift i r r' P) (hr : r (.at text i) = none) :
    r' ((Cursor.at text i).moved shift) = none := by
  obtain ⟨-, hr'⟩ | ⟨a, a', j, hsome, -⟩ := h
  · exact hr'
  · rw [hr] at hsome
    cases hsome

/-- **A sequence is in tandem** if its parts are. -/
theorem bind (h : Tandem text shift i r r' P)
    (hf : ∀ a a' j, P a a' j → Tandem text shift j (f a) (f' a') Q) :
    Tandem text shift i (r >>= f) (r' >>= f') Q := by
  unfold Tandem
  rw [Reader.bind_apply, Reader.bind_apply]
  obtain ⟨hr, hr'⟩ | ⟨a, a', j, hr, hr', hpost⟩ := h
  · rw [hr, hr']
    exact .inl ⟨rfl, rfl⟩
  · rw [hr, hr']
    exact hf a a' j hpost

/-- The same value twice, as seen from an earlier place. -/
theorem since {j more : Nat} (h : Tandem text shift j r r' (Same j more))
    (hle : i + count ≤ j + more) : Tandem text shift j r r' (Same i count) :=
  h.mono fun _ _ _ hsame => ⟨hsame.1, Nat.le_trans hle hsame.2⟩

/-- Where a reader stops, if its value is not wanted. -/
theorem ends {j low : Nat} (h : Tandem text shift j r r' (Past j count P))
    (hle : low ≤ j + count) : Tandem text shift j r r' (Ends low) :=
  h.mono fun _ _ _ hpast => Nat.le_trans hle hpast.1

/-- Values in a relation, as seen from an earlier place. -/
theorem past {j more : Nat} (h : Tandem text shift j r r' (Past j more P))
    (hle : i + count ≤ j + more) : Tandem text shift j r r' (Past i count P) :=
  h.mono fun _ _ _ hpast => ⟨Nat.le_trans hle hpast.1, hpast.2⟩

/-- Nothing read, as seen from an earlier place. -/
theorem stays {j : Nat} (h : Tandem text shift j r r' (Stays j)) (hle : i + count ≤ j) :
    Tandem text shift j r r' (Same i count) :=
  h.mono fun _ _ _ hstays => ⟨hstays.1, Nat.le_trans hle (Nat.le_of_eq hstays.2.symm)⟩

/-- A sequence whose first part gives the same value twice. -/
theorem next (h : Tandem text shift i r r' (Same i count))
    (hf : ∀ a j, i + count ≤ j → Tandem text shift j (f a) (f' a) Q) :
    Tandem text shift i (r >>= f) (r' >>= f') Q := by
  refine h.bind fun a a' j hpost => ?_
  obtain ⟨rfl, hj⟩ := hpost
  exact hf a' j hj

/-- A sequence whose first part reads nothing. -/
theorem peek (h : Tandem text shift i r r' (Stays i))
    (hf : ∀ a, Tandem text shift i (f a) (f' a) Q) :
    Tandem text shift i (r >>= f) (r' >>= f') Q := by
  refine h.bind fun a a' j hpost => ?_
  obtain ⟨rfl, rfl⟩ := hpost
  exact hf a'

theorem map (h : Tandem text shift i r r' P) {g : α → β}
    (hQ : ∀ a a' j, P a a' j → Q (g a) (g a') j) :
    Tandem text shift i (g <$> r) (g <$> r') Q :=
  h.bind fun a a' j hpost => pure (hQ a a' j hpost)

/-- A reader whose value is not wanted. -/
theorem discard {j : Nat} (h : Tandem text shift j r r' P)
    (hP : ∀ a a' l, P a a' l → i + count ≤ l) :
    Tandem text shift j (r >>= fun _ => Pure.pure ()) (r' >>= fun _ => Pure.pure ())
      (Same i count) :=
  h.bind fun a a' l hpost => pure ⟨rfl, hP a a' l hpost⟩

theorem discard_past {j more : Nat} (h : Tandem text shift j r r' (Past j more P))
    (hle : i + count ≤ j + more) :
    Tandem text shift j (r >>= fun _ => Pure.pure ()) (r' >>= fun _ => Pure.pure ())
      (Same i count) :=
  h.discard fun _ _ _ hpast => Nat.le_trans hle hpast.1

/-- **A choice is in tandem** if both ways are. -/
theorem orElse (h : Tandem text shift i r r' P) (h' : Tandem text shift i s s' P) :
    Tandem text shift i (r <|> s) (r' <|> s') P := by
  unfold Tandem
  rw [Reader.orElse_apply, Reader.orElse_apply]
  obtain ⟨hr, hr'⟩ | ⟨a, a', j, hr, hr', hpost⟩ := h
  · rw [hr, hr']
    exact h'
  · rw [hr, hr']
    exact .inr ⟨a, a', j, rfl, rfl, hpost⟩

theorem ite {p : Prop} [Decidable p] (h : p → Tandem text shift i r r' P)
    (h' : ¬p → Tandem text shift i s s' P) :
    Tandem text shift i (if p then r else s) (if p then r' else s') P := by
  by_cases hp : p
  · rw [if_pos hp, if_pos hp]
    exact h hp
  · rw [if_neg hp, if_neg hp]
    exact h' hp

/-- A value that is looked for or is given, according to a condition. -/
theorem peekIf {p : Prop} [Decidable p] {a : α} (h : Tandem text shift i r r' (Stays i))
    (hf : ∀ a, Tandem text shift i (f a) (f' a) Q) :
    Tandem text shift i (if p then r >>= f else Pure.pure a >>= f)
      (if p then r' >>= f' else Pure.pure a >>= f') Q :=
  ite (fun _ => h.peek hf) fun _ => hf a

/-! ## Looking without reading -/

theorem pos {f f' : Nat → Reader β}
    (h : Tandem text shift i (f (offsetAt text i)) (f' (offsetAt text i + shift)) Q) :
    Tandem text shift i (Reader.pos >>= f) (Reader.pos >>= f') Q := h

theorem here {f f' : Cursor → Reader β}
    (h : Tandem text shift i (f (.at text i)) (f' ((Cursor.at text i).moved shift)) Q) :
    Tandem text shift i (Reader.here >>= f) (Reader.here >>= f') Q := h

theorem ahead {f f' : List Char → Reader β}
    (h : Tandem text shift i (f (text.drop i)) (f' (text.drop i)) Q) :
    Tandem text shift i (Reader.ahead >>= f) (Reader.ahead >>= f') Q := h

/-- Back to a place. -/
theorem goTo {j : Nat} {f f' : PUnit → Reader β} (h : Tandem text shift j (f ()) (f' ()) Q) :
    Tandem text shift i (set (Cursor.at text j) >>= f)
      (set ((Cursor.at text j).moved shift) >>= f') Q := h

theorem require (b : Bool) :
    Tandem text shift i (Reader.require b) (Reader.require b) (Stays i) := by
  unfold Reader.require
  cases b with
  | true => exact pure ⟨rfl, rfl⟩
  | false => exact failure

theorem sees (h : Tandem text shift i r r' P) :
    Tandem text shift i (Reader.sees r) (Reader.sees r') (Stays i) := by
  refine .inr ⟨(r (.at text i)).isSome, (r' ((Cursor.at text i).moved shift)).isSome, i,
    rfl, rfl, ?_, rfl⟩
  obtain ⟨hr, hr'⟩ | ⟨a, a', j, hr, hr', -⟩ := h
  · rw [hr, hr']
  · rw [hr, hr']
    rfl

theorem refuse (h : Tandem text shift i r r' P) :
    Tandem text shift i (Reader.refuse r) (Reader.refuse r') (Stays i) :=
  h.sees.peek fun _ => require _

/-! ## Options and repetitions -/

theorem option (h : Tandem text shift i r r' P) :
    Tandem text shift i (Reader.option r) (Reader.option r') (Maybe i P) :=
  (h.map fun _ _ _ hpost => .some hpost).orElse (pure .none)

theorem option_ends (h : Tandem text shift i r r' (Ends i)) :
    Tandem text shift i (Reader.option r) (Reader.option r') (Ends i) :=
  h.option.mono fun _ _ _ hmaybe => hmaybe.le fun _ _ _ hpost => hpost

theorem option_same (h : Tandem text shift i r r' (Same i count)) :
    Tandem text shift i (Reader.option r) (Reader.option r') (Same i 0) := by
  refine h.option.mono fun a a' j hmaybe => ?_
  cases hmaybe with
  | none => exact ⟨rfl, Nat.le_refl i⟩
  | some hpost =>
    obtain ⟨rfl, hj⟩ := hpost
    exact ⟨rfl, by omega⟩

/-- A reader that may fail, unless a condition holds. -/
theorem optionUnless {p : Prop} [Decidable p] {f f' : Option α → Reader β}
    (h : ¬p → Tandem text shift i r r' P)
    (hf : ∀ a a' j, Maybe i P a a' j → Tandem text shift j (f a) (f' a') Q) :
    Tandem text shift i (if p then Pure.pure none >>= f else Reader.option r >>= f)
      (if p then Pure.pure none >>= f' else Reader.option r' >>= f') Q :=
  ite (fun _ => hf none none i .none) fun hp => (h hp).option.bind hf

theorem behind {opening opening' : Reader Unit}
    (ho : Tandem text shift i opening opening' (Same i count))
    (h : ∀ j, i + count ≤ j → Tandem text shift j r r' P) :
    Tandem text shift i (Reader.behind opening r) (Reader.behind opening' r') (Maybe i P) := by
  refine ho.option.bind fun a a' j hmaybe => ?_
  cases hmaybe with
  | none => exact pure .none
  | some hpost => exact (h j hpost.2).map fun _ _ _ hpost => .some hpost

theorem behind_ends {opening opening' : Reader Unit}
    (ho : Tandem text shift i opening opening' (Same i count))
    (h : ∀ j, i + count ≤ j → Tandem text shift j r r' (Ends i)) :
    Tandem text shift i (Reader.behind opening r) (Reader.behind opening' r') (Ends i) :=
  (behind ho h).mono fun _ _ _ hmaybe => hmaybe.le fun _ _ _ hpost => hpost

theorem behind_same {opening opening' : Reader Unit} {more : Nat}
    (ho : Tandem text shift i opening opening' (Same i count))
    (h : ∀ j, i + count ≤ j → Tandem text shift j r r' (Same j more)) :
    Tandem text shift i (Reader.behind opening r) (Reader.behind opening' r') (Same i 0) := by
  refine ho.option.bind fun a a' j hmaybe => ?_
  cases hmaybe with
  | none => exact pure ⟨rfl, Nat.le_refl i⟩
  | some hpost =>
    refine (h j hpost.2).map fun b b' l hpost' => ?_
    obtain ⟨rfl, hl⟩ := hpost'
    exact ⟨rfl, by have := hpost.2; omega⟩

variable {Step : Nat → α → α → Nat → Prop}

theorem manyUpTo (limit : Nat) (h : ∀ j, i ≤ j → Tandem text shift j r r' (Step j))
    (hle : ∀ j a a' l, Step j a a' l → j ≤ l) :
    Tandem text shift i (Reader.manyUpTo r limit) (Reader.manyUpTo r' limit) (Rounds Step i) := by
  induction limit generalizing i with
  | zero => exact pure .nil
  | succ limit ih =>
    refine ((h i (Nat.le_refl i)).bind fun a a' j hstep => ?_).orElse (pure .nil)
    have hj := hle i a a' j hstep
    refine (ih fun l hl => h l (Nat.le_trans hj hl)).bind fun as as' l hrounds => ?_
    exact pure (.cons hstep hrounds)

/-- Repetitions with different bounds are in tandem, if each round takes a
character and none can start at the end of the text. -/
theorem manyUpTo_enough (h : ∀ j, i ≤ j → Tandem text shift j r r' (Step j))
    (hlt : ∀ j a a' l, Step j a a' l → j < l)
    (hend : ∀ j, text.length ≤ j → r (.at text j) = none) {limit limit' : Nat}
    (hlimit : text.length ≤ i + limit) (hlimit' : text.length ≤ i + limit') :
    Tandem text shift i (Reader.manyUpTo r limit) (Reader.manyUpTo r' limit') (Rounds Step i) := by
  induction limit generalizing i limit' with
  | zero =>
    have hnone := hend i hlimit
    have hnone' := (h i (Nat.le_refl i)).none_of_none hnone
    exact .inr ⟨[], [], i, rfl, Reader.manyUpTo_of_none hnone' _, .nil⟩
  | succ limit ih =>
    cases limit' with
    | zero => exact .inr ⟨[], [], i, Reader.manyUpTo_of_none (hend i hlimit') _, rfl, .nil⟩
    | succ limit' =>
      refine ((h i (Nat.le_refl i)).bind fun a a' j hstep => ?_).orElse (pure .nil)
      have hj := hlt i a a' j hstep
      refine (ih (fun l hl => h l (by omega)) (by omega) (by omega)).bind
        fun as as' l hrounds => ?_
      exact pure (.cons hstep hrounds)

/-- **Repetitions are in tandem** if each round is. -/
theorem many (h : ∀ j, i ≤ j → Tandem text shift j r r' (Step j))
    (hle : ∀ j a a' l, Step j a a' l → j ≤ l) :
    Tandem text shift i (Reader.many r) (Reader.many r') (Rounds Step i) :=
  ahead (manyUpTo _ h hle)

theorem many_same (h : ∀ j, i ≤ j → Tandem text shift j r r' (Same j 0)) :
    Tandem text shift i (Reader.many r) (Reader.many r') (Same i 0) := by
  refine (many h fun j a a' l hsame => hsame.2).mono ?_
  intro as as' j hrounds
  clear h
  induction hrounds with
  | nil => exact ⟨rfl, Nat.le_refl _⟩
  | cons head _ ih =>
    obtain ⟨rfl, hj⟩ := head
    obtain ⟨rfl, hl⟩ := ih
    exact ⟨rfl, by omega⟩

end Tandem

/-! ## Tokens -/

section Tokens

variable {text : List Char} {shift i : Nat}

theorem Cursor.moved_skip (shift count : Nat) (c : Cursor) :
    (c.moved shift).skip count = (c.skip count).moved shift := by
  unfold Cursor.moved Cursor.skip
  rw [Nat.add_right_comm]

theorem tandem_take (count : Nat) :
    Tandem text shift i (Reader.take count) (Reader.take count) (Same i count) := by
  refine .inr ⟨(text.drop i).take count, (text.drop i).take count, i + count,
    ?_, ?_, rfl, Nat.le_refl _⟩
  · rw [← Cursor.skip_at]
    rfl
  · rw [← Cursor.skip_at, ← Cursor.moved_skip]
    rfl

theorem tandem_token {lexeme : Lexeme} {least : Nat} (h : lexeme.Takes least) :
    Tandem text shift i (Reader.token lexeme) (Reader.token lexeme) (Same i least) := by
  refine .ahead ?_
  cases hcount : lexeme (text.drop i) with
  | none => exact .failure
  | some count =>
    refine (tandem_take count).mono fun a a' j hsame => ⟨hsame.1, ?_⟩
    exact Nat.le_trans (Nat.add_le_add_left (h _ count hcount) i) hsame.2

/-- A step on by a number of characters. -/
theorem tandem_skip (count : Nat) :
    Tandem text shift i (modify (·.skip count)) (modify (·.skip count))
      (fun (_ _ : PUnit) j => j = i + count) := by
  refine .inr ⟨(), (), i + count, ?_, ?_, rfl⟩
  · rw [← Cursor.skip_at]
    rfl
  · rw [← Cursor.skip_at, ← Cursor.moved_skip]
    rfl

theorem tandem_literal (symbol : String) (h : symbol ≠ "") :
    Tandem text shift i (Reader.literal symbol) (Reader.literal symbol) (Same i 1) := by
  refine .ahead ((Tandem.require _).peek fun _ => (tandem_skip _).mono fun _ _ j hj => ⟨rfl, ?_⟩)
  have hlength : symbol.toList.length ≠ 0 := by simpa using h
  omega

theorem tandem_string :
    Tandem text shift i Reader.string Reader.string (Same i 1) := by
  refine .ahead ?_
  cases hstring : string? (text.drop i) with
  | none => exact .failure
  | some found =>
    obtain ⟨value, count⟩ := found
    refine (tandem_skip count).bind fun _ _ j hj => .pure ⟨rfl, ?_⟩
    have hcount : 1 ≤ count := by
      unfold string? at hstring
      split at hstring
      · split at hstring
        · obtain ⟨x, -, hx⟩ := Option.map_eq_some_iff.1 hstring
          cases hx
          omega
        · cases hstring
      · cases hstring
    omega

/-! ### Names and numbers -/

theorem nameEscape?_takes : Lexeme.Takes 1 nameEscape? := by
  intro cs count h
  unfold nameEscape? at h
  split at h <;> grind

theorem nameChar?_takes (plain : Char → Bool) : Lexeme.Takes 1 (nameChar? plain) := by
  intro cs count h
  unfold nameChar? at h
  split at h
  · cases h
  · split at h
    · cases h
      exact Nat.le_refl 1
    · exact nameEscape?_takes _ count h

theorem name?_takes : Lexeme.Takes 1 name? := by
  intro cs count h
  obtain ⟨first, hfirst, rfl⟩ := Option.map_eq_some_iff.1 h
  have := nameChar?_takes isNameStart cs first hfirst
  omega

theorem privateName?_takes : Lexeme.Takes 1 privateName? := by
  intro cs count h
  unfold privateName? at h
  split at h
  · obtain ⟨rest, -, rfl⟩ := Option.map_eq_some_iff.1 h
    omega
  · cases h

theorem tandem_name : Tandem text shift i Reader.name Reader.name (Same i 1) :=
  (tandem_token name?_takes).map fun _ _ _ h => ⟨congrArg String.ofList h.1, h.2⟩

theorem tandem_privateName :
    Tandem text shift i Reader.privateName Reader.privateName (Same i 1) :=
  (tandem_token privateName?_takes).map fun _ _ _ h => ⟨congrArg String.ofList h.1, h.2⟩

theorem tandem_keyword (word : String) :
    Tandem text shift i (Reader.keyword word) (Reader.keyword word) (Same i 1) :=
  tandem_name.next fun _ _ hj => (Tandem.require _).stays hj

/-! ### White space and comments -/

theorem Cursor.rest_moved (c : Cursor) : (c.moved shift).rest = c.rest := rfl

theorem Cursor.triviaUpTo_at (text : List Char) (shift limit i : Nat) : ∃ j, i ≤ j
    ∧ (Cursor.at text i).triviaUpTo limit = .at text j
    ∧ ((Cursor.at text i).moved shift).triviaUpTo limit = (Cursor.at text j).moved shift := by
  induction limit generalizing i with
  | zero => exact ⟨i, Nat.le_refl i, rfl, rfl⟩
  | succ limit ih =>
    simp only [triviaUpTo, rest_moved, moved_skip, skip_at]
    cases comment? (Cursor.at text (i + spaces (Cursor.at text i).rest)).rest with
    | none => exact ⟨_, Nat.le_add_right i _, rfl, rfl⟩
    | some count =>
      obtain ⟨j, hj, h, h'⟩ := ih (i + spaces (Cursor.at text i).rest + count)
      exact ⟨j, by omega, h, h'⟩

theorem tandem_trivia : Tandem text shift i Reader.trivia Reader.trivia (Same i 0) := by
  obtain ⟨j, hj, h, h'⟩ := Cursor.triviaUpTo_at text shift ((text.drop i).length + 1) i
  refine .inr ⟨(), (), j, ?_, ?_, rfl, hj⟩
  · rw [← h]
    rfl
  · rw [← h']
    rfl

theorem isSpace_eq_false_of_mark? {c : Char} {cs : List Char} {count : Nat}
    (h : mark? (c :: cs) = some count) : isSpace c = false := by
  unfold mark? at h
  split at h
  case h_1 heq =>
    cases heq
    decide
  case h_2 heq =>
    cases heq
    decide
  case h_3 => cases h

/-- A mark is no white space, so all white space before it is of the kind that
a mark is seen behind. -/
theorem spaces_eq_of_mark? {near : Char → Bool} (hnear : ∀ c, near c → isSpace c)
    {cs : List Char} {count : Nat} (h : mark? (cs.drop (cs.takeWhile near).length) = some count) :
    (cs.takeWhile near).length = spaces cs := by
  unfold spaces
  induction cs with
  | nil => rfl
  | cons c cs ih =>
    by_cases hc : near c = true
    · rw [List.takeWhile_cons_of_pos hc] at h ⊢
      rw [List.takeWhile_cons_of_pos (hnear c hc)]
      exact congrArg (· + 1) (ih h)
    · rw [List.takeWhile_cons_of_neg hc] at h ⊢
      rw [List.takeWhile_cons_of_neg (by rw [isSpace_eq_false_of_mark? h]; decide)]

theorem Cursor.gapUpTo_at (text : List Char) (shift limit i : Nat) : ∃ spans low j, i ≤ low
    ∧ (limit ≠ 0 → i + spaces (text.drop i) ≤ low) ∧ Span.Row text low j spans
    ∧ (Cursor.at text i).gapUpTo limit = (spans, .at text j)
    ∧ ((Cursor.at text i).moved shift).gapUpTo limit
      = (spans.map (Span.moved shift), (Cursor.at text j).moved shift) := by
  induction limit generalizing i with
  | zero => exact ⟨[], i, i, Nat.le_refl i, fun h => absurd rfl h, .nil (Nat.le_refl i), rfl, rfl⟩
  | succ limit ih =>
    have hspaces : spaces (Cursor.at text i).rest = spaces (text.drop i) := rfl
    simp only [gapUpTo, rest_moved, moved_skip, skip_at]
    generalize hnear : ((Cursor.at text i).rest.takeWhile
      fun c => isAsciiSpace c || isSeparator c).length = near
    cases hmark : mark? (Cursor.at text (i + near)).rest with
    | some count =>
      obtain ⟨spans, low, j, hlow, -, hrow, h, h'⟩ := ih (i + near + count)
      have hn : near = spaces (text.drop i) := by
        rw [← hnear]
        have hspace : ∀ c, (isAsciiSpace c || isSeparator c) = true → isSpace c = true := by
          unfold isSpace
          grind
        refine spaces_eq_of_mark? hspace (Eq.trans ?_ hmark)
        rw [hnear]
        exact congrArg mark? List.drop_drop
      refine ⟨spanAt text (i + near) (i + near + count) :: spans, i + near, j, by omega,
        fun _ => by omega, .cons (Nat.le_refl _) (by omega) (hrow.widen hlow), ?_, ?_⟩
      · simp only [h]
        rfl
      · simp only [h']
        rfl
    | none =>
      simp only [hspaces]
      cases comment? (Cursor.at text (i + spaces (text.drop i))).rest with
      | none => exact ⟨[], _, _, by omega, fun _ => Nat.le_refl _, .nil (Nat.le_refl _), rfl, rfl⟩
      | some count =>
        obtain ⟨spans, low, j, hlow, -, hrow, h, h'⟩ := ih (i + spaces (text.drop i) + count)
        exact ⟨spans, low, j, by omega, fun _ => by omega, hrow, h, h'⟩

/-- **Marks that are read twice**, once moved on. -/
structure MarkTwins (text : List Char) (shift i : Nat) (spans spans' : List Span) (j : Nat) :
    Prop where
  /-- The second spans are the first, moved on. -/
  moved : spans' = spans.map (Span.moved shift)
  /-- The first spans are in a row. -/
  row : Span.Row text i j spans

/-- **Marks are read in tandem**, one behind the other, and all of them behind
the white space that comes first. -/
theorem tandem_marks : Tandem text shift i Reader.marks Reader.marks
    (MarkTwins text shift (i + spaces (text.drop i))) := by
  obtain ⟨spans, low, j, -, hlow, hrow, h, h'⟩ :=
    Cursor.gapUpTo_at text shift ((text.drop i).length + 1) i
  refine .inr ⟨spans, spans.map (Span.moved shift), j, ?_, ?_, rfl, hrow.widen (hlow (by omega))⟩
  · rw [← h]
    rfl
  · rw [← h']
    rfl

theorem tandem_gap : Tandem text shift i Reader.gap Reader.gap (Same i 0) :=
  tandem_marks.discard fun _ _ _ h => Nat.le_trans (Nat.le_add_right i _) h.row.le

theorem tandem_noMark : Tandem text shift i Reader.noMark Reader.noMark (Stays i) := by
  obtain ⟨spans, low, j, -, -, -, h, h'⟩ :=
    Cursor.gapUpTo_at text shift ((text.drop i).length + 1) i
  have hempty : ∀ c : Cursor, Reader.noMark c
      = Reader.require (c.gapUpTo (c.rest.length + 1)).1.isEmpty c := fun _ => rfl
  unfold Tandem
  rw [hempty, hempty]
  have hlength : (Cursor.at text i).rest.length + 1 = (text.drop i).length + 1 := rfl
  rw [Cursor.rest_moved, hlength, h, h', List.isEmpty_map]
  exact Tandem.require _

/-! ### The end of a statement -/

theorem Cursor.statementEndUpTo_at (text : List Char) (shift : Nat) (written bare : Bool)
    (limit i : Nat) :
    ((Cursor.at text i).statementEndUpTo written bare limit = none
      ∧ ((Cursor.at text i).moved shift).statementEndUpTo written bare limit = none)
    ∨ ∃ j, i ≤ j ∧ (Cursor.at text i).statementEndUpTo written bare limit = some (.at text j)
      ∧ ((Cursor.at text i).moved shift).statementEndUpTo written bare limit
        = some ((Cursor.at text j).moved shift) := by
  induction limit generalizing i with
  | zero => exact .inl ⟨rfl, rfl⟩
  | succ limit ih =>
    simp only [statementEndUpTo, rest_moved, moved_skip, skip_at]
    split
    · exact .inr ⟨i, Nat.le_refl i, rfl, rfl⟩
    · split
      · exact .inr ⟨_, by omega, rfl, rfl⟩
      · cases comment? (Cursor.at text (i + spaces (Cursor.at text i).rest)).rest with
        | none => exact .inl ⟨rfl, rfl⟩
        | some count =>
          obtain hnone | ⟨j, hj, h, h'⟩ := ih (i + spaces (Cursor.at text i).rest + count)
          · exact .inl hnone
          · exact .inr ⟨j, by omega, h, h'⟩

/-- The end of a statement is found at the same place. -/
theorem Cursor.statementEnd?_at (text : List Char) (shift i : Nat) (written bare : Bool) :
    ((Cursor.at text i).statementEnd? written bare = none
      ∧ ((Cursor.at text i).moved shift).statementEnd? written bare = none)
    ∨ ∃ j, i ≤ j ∧ (Cursor.at text i).statementEnd? written bare = some (.at text j)
      ∧ ((Cursor.at text i).moved shift).statementEnd? written bare
        = some ((Cursor.at text j).moved shift) :=
  statementEndUpTo_at text shift written bare ((text.drop i).length + 1) i

/-- A choice by where a statement ends. -/
theorem Tandem.statementEnd {written bare : Bool} {f f' : Cursor → Reader α} {r r' : Reader α}
    {P : α → α → Nat → Prop}
    (hsome : ∀ j, i ≤ j →
      Tandem text shift i (f (.at text j)) (f' ((Cursor.at text j).moved shift)) P)
    (hnone : Tandem text shift i r r' P) :
    Tandem text shift i
      (do match (← get).statementEnd? written bare with | some c => f c | none => r)
      (do match (← get).statementEnd? written bare with | some c => f' c | none => r') P := by
  have hrun : ∀ (f : Cursor → Reader α) (r : Reader α) (c : Cursor),
      (do match (← get).statementEnd? written bare with | some c => f c | none => r : Reader α) c
      = (match c.statementEnd? written bare with | some c => f c | none => r) c := fun _ _ _ => rfl
  unfold Tandem
  rw [hrun, hrun]
  obtain ⟨h, h'⟩ | ⟨j, hj, h, h'⟩ := Cursor.statementEnd?_at text shift i written bare
  · rw [h, h']
    exact hnone
  · rw [h, h']
    exact hsome j hj

theorem tandem_semicolon (bare : Bool) :
    Tandem text shift i (Reader.semicolon bare) (Reader.semicolon bare) (Same i 0) :=
  .statementEnd (fun j hj => .inr ⟨(), (), j, rfl, rfl, rfl, hj⟩) .failure

theorem tandem_optionalSemicolon (bare : Bool) :
    Tandem text shift i (Reader.optionalSemicolon bare) (Reader.optionalSemicolon bare)
      (Same i 0) :=
  .statementEnd (fun j hj => .inr ⟨(), (), j, rfl, rfl, rfl, hj⟩)
    (tandem_noMark.stays (Nat.le_refl i))

theorem tandem_atSupplied (bare : Bool) :
    Tandem text shift i (Reader.atSupplied bare) (Reader.atSupplied bare) (Stays i) := by
  refine .inr ⟨_, _, i, rfl, rfl, ?_, rfl⟩
  obtain ⟨h, h'⟩ | ⟨j, hj, h, h'⟩ := Cursor.statementEnd?_at text shift i false bare
  · rw [h, h']
  · rw [h, h']
    rfl

end Tokens

end ScriptToShell.Scan
