import ScriptToShell.Proofs.Place
import ScriptToShell.Scan.Trivia

/-!
# Runs of a reader

To run a reader is to apply it to a place in a text. This module says what
comes of it for each way of putting readers together, as rules of `simp`, and
for the readers of tokens, if it is known which characters come next.
-/

namespace ScriptToShell.Scan.Reader

variable {α β : Type} {r : Reader α} {c d e : Cursor} {a : α}

/-! ## Sequences, choices and repetitions -/

@[simp] theorem bind_apply (r : Reader α) (f : α → Reader β) (c : Cursor) :
    (r >>= f) c = (r c).bind fun x => f x.1 x.2 := rfl

@[simp] theorem pure_apply (a : α) (c : Cursor) : (pure a : Reader α) c = some (a, c) := rfl

@[simp] theorem failure_apply (c : Cursor) : (failure : Reader α) c = none := rfl

@[simp] theorem orElse_apply (r s : Reader α) (c : Cursor) :
    (r <|> s) c = (r c).orElse fun _ => s c := rfl

@[simp] theorem map_apply (f : α → β) (r : Reader α) (c : Cursor) :
    (f <$> r) c = (r c).map fun x => (f x.1, x.2) := by
  show (r c).bind (fun x => some (f x.1, x.2)) = _
  cases r c <;> rfl

@[simp] theorem get_apply (c : Cursor) : (get : Reader Cursor) c = some (c, c) := rfl

@[simp] theorem set_apply (c d : Cursor) : (set d : Reader PUnit) c = some ((), d) := rfl

@[simp] theorem modify_apply (f : Cursor → Cursor) (c : Cursor) :
    (modify f : Reader PUnit) c = some ((), f c) := rfl

@[simp] theorem here_apply (c : Cursor) : here c = some (c, c) := rfl

@[simp] theorem ahead_apply (c : Cursor) : ahead c = some (c.rest, c) := rfl

@[simp] theorem pos_apply (c : Cursor) : pos c = some (c.pos, c) := rfl

@[simp] theorem require_apply (b : Bool) (c : Cursor) :
    require b c = if b then some ((), c) else none := by
  cases b <;> rfl

@[simp] theorem sees_apply (r : Reader α) (c : Cursor) : sees r c = some ((r c).isSome, c) := rfl

@[simp] theorem option_apply (r : Reader α) (c : Cursor) :
    option r c = ((r c).map fun x => (some x.1, x.2)).orElse fun _ => some (none, c) := by
  unfold option
  simp

/-- A repetition reads nothing where a round fails, whatever its bound. -/
theorem manyUpTo_of_none (h : r c = none) (limit : Nat) : manyUpTo r limit c = some ([], c) := by
  cases limit with
  | zero => rfl
  | succ limit => simp [manyUpTo, h]

/-- A round of a repetition. -/
theorem manyUpTo_succ {as : List α} {limit : Nat} (h : r c = some (a, d))
    (hs : manyUpTo r limit d = some (as, e)) : manyUpTo r (limit + 1) c = some (a :: as, e) := by
  simp [manyUpTo, h, hs]

/-- A repetition never fails. -/
theorem exists_manyUpTo (r : Reader α) (limit : Nat) (c : Cursor) :
    ∃ as d, manyUpTo r limit c = some (as, d) := by
  induction limit generalizing c with
  | zero => exact ⟨[], c, rfl⟩
  | succ limit ih =>
    cases h : r c with
    | none => exact ⟨[], c, manyUpTo_of_none h _⟩
    | some found =>
      obtain ⟨as, e, hs⟩ := ih found.2
      exact ⟨found.1 :: as, e, manyUpTo_succ h hs⟩

@[simp] theorem many_apply (r : Reader α) (c : Cursor) :
    many r c = manyUpTo r c.rest.length c := rfl

/-! ## Tokens -/

variable {pos : Nat} {cs rest : List Char}

@[simp] theorem take_append :
    take cs.length ⟨pos, cs ++ rest⟩ = some (cs, ⟨pos + byteLength cs, rest⟩) := by
  show some ((cs ++ rest).take cs.length, Cursor.skip cs.length ⟨pos, cs ++ rest⟩) = _
  rw [List.take_left, Cursor.skip_append]

/-- A token is read if it is what its lexeme finds. -/
theorem token_append {lexeme : Lexeme} (h : lexeme (cs ++ rest) = some cs.length) :
    token lexeme ⟨pos, cs ++ rest⟩ = some (cs, ⟨pos + byteLength cs, rest⟩) := by
  simp [token, h]

end ScriptToShell.Scan.Reader

namespace ScriptToShell.Scan

/-- Every token of a kind takes a number of characters at least. -/
def Lexeme.Takes (least : Nat) (lexeme : Lexeme) : Prop :=
  ∀ cs count, lexeme cs = some count → least ≤ count

theorem Lexeme.takes_zero (lexeme : Lexeme) : lexeme.Takes 0 := fun _ count _ => Nat.zero_le count

/-! ## White space -/

theorem mark?_takes : Lexeme.Takes 1 mark? := by
  intro cs count h
  unfold mark? at h
  grind

theorem comment?_takes : Lexeme.Takes 1 comment? := by
  intro cs count h
  unfold comment? at h
  grind [Option.map_eq_some_iff]

namespace Cursor

/-- Behind a token less is left to read. -/
theorem length_skip_lt {lexeme : Lexeme} (htakes : lexeme.Takes 1) (hnil : lexeme [] = none)
    {c : Cursor} {count : Nat} (h : lexeme c.rest = some count) :
    (c.skip count).rest.length < c.rest.length := by
  have hcount := htakes c.rest count h
  have hrest : c.rest ≠ [] := by
    intro hempty
    rw [hempty, hnil] at h
    cases h
  have hpos := List.length_pos_iff.2 hrest
  show (c.rest.drop count).length < c.rest.length
  rw [List.length_drop]
  omega

theorem length_skip_le (c : Cursor) (count : Nat) :
    (c.skip count).rest.length ≤ c.rest.length := by
  show (c.rest.drop count).length ≤ c.rest.length
  rw [List.length_drop]
  exact Nat.sub_le _ _

/-- The bound on what is passed over does not matter if it is large enough. -/
theorem gapUpTo_enough {n m : Nat} {c : Cursor} (hn : c.rest.length < n) (hm : c.rest.length < m) :
    c.gapUpTo n = c.gapUpTo m := by
  induction n generalizing m c with
  | zero => omega
  | succ n ih =>
    cases m with
    | zero => omega
    | succ m =>
      simp only [gapUpTo]
      have hnear := length_skip_le c
        (c.rest.takeWhile fun x => isAsciiSpace x || isSeparator x).length
      split
      case h_1 count hmark =>
        have hlt := length_skip_lt mark?_takes rfl hmark
        rw [ih (m := m) (by omega) (by omega)]
      case h_2 =>
        have hspaces := length_skip_le c (spaces c.rest)
        split
        case h_1 count hcomment =>
          have hlt := length_skip_lt comment?_takes rfl hcomment
          exact ih (by omega) (by omega)
        case h_2 => rfl

/-- A character of white space is passed over. -/
theorem gapUpTo_space (limit pos : Nat) {x : Char} (hx : isAsciiSpace x) (cs : List Char) :
    gapUpTo (limit + 1) ⟨pos, x :: cs⟩ = gapUpTo (limit + 1) ⟨pos + x.utf8Size, cs⟩ := by
  have hskip : ∀ count, skip (count + 1) ⟨pos, x :: cs⟩ = skip count ⟨pos + x.utf8Size, cs⟩ := by
    intro count
    show (⟨pos + (x.utf8Size + byteLength (cs.take count)), cs.drop count⟩ : Cursor)
      = ⟨pos + x.utf8Size + byteLength (cs.take count), cs.drop count⟩
    rw [Nat.add_assoc]
  have hnear : ((x :: cs).takeWhile fun x => isAsciiSpace x || isSeparator x).length
      = (cs.takeWhile fun x => isAsciiSpace x || isSeparator x).length + 1 := by
    simp [hx]
  have hspaces : spaces (x :: cs) = spaces cs + 1 := by
    simp [spaces, isSpace, hx]
  simp only [gapUpTo, hnear, hspaces, hskip]

end Cursor

/-- **A text that starts with a token**, so that there is nothing to pass
over. -/
structure Solid (cs : List Char) : Prop where
  /-- There is no white space. -/
  space : spaces cs = 0
  /-- There is no mark. -/
  mark : mark? cs = none
  /-- There is no comment. -/
  comment : comment? cs = none

theorem solid_cons {c : Char} {cs : List Char} (hspace : isSpace c = false) (hmark : c ≠ '<')
    (harrow : c ≠ '-') (hcomment : c ≠ '/') : Solid (c :: cs) := by
  refine ⟨by simp [spaces, hspace], ?_, ?_⟩
  · unfold mark?
    split
    · simp_all
    · simp_all
    · rfl
  · unfold comment?
    split
    · simp_all
    · simp_all
    · rfl

namespace Reader

theorem marks_apply (c : Cursor) : marks c = some (c.gapUpTo (c.rest.length + 1)) := rfl

/-- White space before other white space, comments and marks does not matter. -/
theorem marks_space (pos : Nat) {x : Char} (hx : isAsciiSpace x) (cs : List Char) :
    marks ⟨pos, x :: cs⟩ = marks ⟨pos + x.utf8Size, cs⟩ := by
  rw [marks_apply, marks_apply]
  refine congrArg some ((Cursor.gapUpTo_space _ pos hx cs).trans ?_)
  exact Cursor.gapUpTo_enough (Nat.lt_succ_of_lt (Nat.lt_succ_self _)) (Nat.lt_succ_self _)

theorem marks_of_solid {cs : List Char} (h : Solid cs) (pos : Nat) :
    marks ⟨pos, cs⟩ = some ([], ⟨pos, cs⟩) := by
  have hnear : cs.takeWhile (fun x => isAsciiSpace x || isSeparator x) = [] := by
    cases cs with
    | nil => rfl
    | cons c cs =>
      have hc : isSpace c = false := by
        have hspaces := h.space
        cases hc : isSpace c with
        | false => rfl
        | true => simp [spaces, hc] at hspaces
      simp only [isSpace, Bool.or_eq_false_iff] at hc
      simp [hc]
  have hskip : Cursor.skip 0 ⟨pos, cs⟩ = ⟨pos, cs⟩ := rfl
  simp [marks_apply, Cursor.gapUpTo, hnear, hskip, h.mark, h.space, h.comment]

/-- A space is passed over up to the next token. -/
theorem marks_of_space {cs : List Char} (h : Solid cs) (pos : Nat) :
    marks ⟨pos, ' ' :: cs⟩ = some ([], ⟨pos + 1, cs⟩) :=
  (marks_space pos rfl cs).trans (marks_of_solid h (pos + 1))

end Reader

end ScriptToShell.Scan
