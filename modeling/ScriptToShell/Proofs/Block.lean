import ScriptToShell.Proofs.Line

/-!
# Blocks of a script

The lines of a script nest: an `if` has bodies and goes on to its `fi`, a
function goes on to its brace, a `case` has arms. `Block` is this
structure. A block is laid out as lines, each at a depth
(`Block.layout`), and read back from them by a reader that never looks at
the depth (`Block.read?`). The reader goes through the lines once, knows
each by its keywords, and keeps a stack of what is open. So what a shell
makes of a script does not hang on its indentation, and whatever is known
of the blocks that are read is known of the script.

The layout can be read back if no line is mistaken for another
(`Block.read?_layout`). What is needed for that is said by
`Block.Legible`: a command line does not begin with a word that a block
is known by, and a test, a word or a label is neat, however much a
literal in it may look like a keyword.
-/

namespace ScriptToShell.Shell

open Text

mutual

/-- **A block of a script.** -/
inductive Block where
  /-- A line that is a command of its own. -/
  | simple (text : String)
  /-- An `if`: the test and the body of its first branch, and the rest. -/
  | conditional (test : String) (body : List Block) (rest : Alternative)
  | function (name : String) (body : List Block)
  /-- A `case` on a word. -/
  | choice (word : String) (arms : List Arm)

/-- **What follows a branch** of an `if`. -/
inductive Alternative where
  | none
  | elif (test : String) (body : List Block) (rest : Alternative)
  | otherwise (body : List Block)

/-- **An arm** of a `case`. -/
inductive Arm where
  | mk (label : String) (body : List Block)

end

/-! ## Layout -/

/-- Lines one level deeper. -/
def deeper (lines : List (Nat × String)) : List (Nat × String) :=
  lines.map fun line => (line.1 + 1, line.2)

mutual

/-- **The lines of a block**, each with its depth. -/
def Block.layout : Block → List (Nat × String)
  | .simple text => [(0, text)]
  | .conditional test body rest =>
    (0, "if " ++ test ++ "; then") :: deeper (Block.layoutAll body) ++ rest.layout ++ [(0, "fi")]
  | .function name body =>
    (0, name ++ "() \x7b") :: deeper (Block.layoutAll body) ++ [(0, "\x7d")]
  | .choice word arms =>
    (0, "case " ++ word ++ " in") :: deeper (Arm.layoutAll arms) ++ [(0, "esac")]

/-- The lines of a list of blocks. -/
def Block.layoutAll : List Block → List (Nat × String)
  | [] => []
  | b :: bs => b.layout ++ Block.layoutAll bs

/-- The lines of what follows a branch. -/
def Alternative.layout : Alternative → List (Nat × String)
  | .none => []
  | .elif test body rest =>
    (0, "elif " ++ test ++ "; then") :: deeper (Block.layoutAll body) ++ rest.layout
  | .otherwise body => (0, "else") :: deeper (Block.layoutAll body)

/-- The lines of a list of arms. -/
def Arm.layoutAll : List Arm → List (Nat × String)
  | [] => []
  | .mk label body :: arms =>
    (0, label ++ ")") :: deeper (Block.layoutAll body) ++ (0, ";;") :: Arm.layoutAll arms

end

theorem deeper_append (lines lines' : List (Nat × String)) :
    deeper (lines ++ lines') = deeper lines ++ deeper lines' := List.map_append

/-- A line with the indentation of its depth. -/
def placed (unit : Indent) (line : Nat × String) : String := indentation unit line.1 ++ line.2

/-! ## Reading -/

/-- **What a line is known as.** -/
inductive LineKind where
  | simple
  /-- `if … ; then` -/
  | opens (test : String)
  /-- `elif … ; then` -/
  | chains (test : String)
  /-- `else` -/
  | otherwise
  /-- `fi` -/
  | closes
  | function (name : String)
  /-- The brace behind the body of a function. -/
  | ends
  /-- `case … in` -/
  | choice (word : String)
  /-- `;;` -/
  | endsArm
  /-- `esac` -/
  | endsChoice
deriving DecidableEq, Repr

/-- The lines that consist of a keyword alone. -/
def keywords : List (String × LineKind) :=
  [("else", .otherwise), ("fi", .closes), ("\x7d", .ends), (";;", .endsArm), ("esac", .endsChoice)]

/-- What stands between an opening and a closing text, if a text begins
with the one and then ends in the other. -/
def between? (opening closing text : String) : Option String :=
  let rest := text.toList.drop opening.toList.length
  if opening.toList <+: text.toList ∧ closing.toList <:+ rest then
    some (String.ofList (rest.take (rest.length - closing.toList.length)))
  else none

/-- **What a line is known as**, apart from the labels of a `case`. -/
def LineKind.of (text : String) : LineKind :=
  (keywords.lookup text
    <|> (between? "if " "; then" text).map opens
    <|> (between? "elif " "; then" text).map chains
    <|> (between? "case " " in" text).map choice
    <|> ((between? "" "() \x7b" text).filter isName).map function).getD simple

/-- **A block that is open**, with the blocks that stand before it. -/
inductive OpenBlock where
  /-- A branch of an `if`, and what its body and the rest make of it. -/
  | branch (before : List Block) (close : List Block → Alternative → Block)
  /-- The last branch of an `if`. -/
  | otherwise (before : List Block) (close : List Block → Block)
  | function (before : List Block) (name : String)
  /-- An arm of a `case`, behind other arms. -/
  | arm (before : List Block) (word : String) (arms : List Arm) (label : String)

/-- **How far lines have been read.** -/
inductive BlockReader where
  /-- Inside a body, behind some blocks. -/
  | inBody (blocks : List Block) (outer : List OpenBlock)
  /-- Between the arms of a `case`. -/
  | betweenArms (before : List Block) (word : String) (arms : List Arm) (outer : List OpenBlock)

/-- Reads a line of a kind inside a body. -/
def BlockReader.inside (blocks : List Block) (outer : List OpenBlock) (text : String)
    (kind : LineKind) : Option BlockReader :=
  match kind, outer with
  | .simple, _ => some (.inBody (blocks ++ [.simple text]) outer)
  | .opens test, _ => some (.inBody [] (.branch blocks (.conditional test) :: outer))
  | .chains test, .branch before close :: outer =>
    let close' body rest := close blocks (.elif test body rest)
    some (.inBody [] (.branch before close' :: outer))
  | .otherwise, .branch before close :: outer =>
    let close' body := close blocks (.otherwise body)
    some (.inBody [] (.otherwise before close' :: outer))
  | .closes, .branch before close :: outer => some (.inBody (before ++ [close blocks .none]) outer)
  | .closes, .otherwise before close :: outer => some (.inBody (before ++ [close blocks]) outer)
  | .function name, _ => some (.inBody [] (.function blocks name :: outer))
  | .ends, .function before name :: outer =>
    some (.inBody (before ++ [.function name blocks]) outer)
  | .choice word, _ => some (.betweenArms blocks word [] outer)
  | .endsArm, .arm before word arms label :: outer =>
    some (.betweenArms before word (arms ++ [.mk label blocks]) outer)
  | _, _ => none

/-- **Reads one line.** Where a label is due, the line is a label or the
end of the `case`. -/
def BlockReader.step : BlockReader → String → Option BlockReader
  | .inBody blocks outer, text => inside blocks outer text (LineKind.of text)
  | .betweenArms before word arms outer, text =>
    if text = "esac" then some (.inBody (before ++ [.choice word arms]) outer)
    else (between? "" ")" text).map fun label => .inBody [] (.arm before word arms label :: outer)

/-- A line without its indentation. -/
def stripped (line : String) : String := String.ofList (line.toList.dropWhile isBlank)

/-- **The blocks that lines consist of**, if all of them can be read and
nothing is left open. Blank lines are passed over. -/
def Block.read? (lines : List String) : Option (List Block) :=
  match ((lines.map stripped).filter (· ≠ "")).foldlM BlockReader.step (.inBody [] []) with
  | some (.inBody blocks []) => some blocks
  | _ => none

/-! ## Blocks that can be read back -/

/-- The reserved words that a block is known by. -/
def blockWords : List String := ["if", "elif", "else", "fi", "case", "esac"]

/-- A label: neat, and quoted, a substitution or the one that matches
everything. -/
structure IsLabel (label : String) : Prop where
  /-- A label is neat. -/
  neat : Neat label
  /-- It begins in one of three ways. -/
  begins : ∃ c ∈ ['"', '$', '*'], label.toList.head? = some c

mutual

/-- **A block whose lines are not mistaken for others.** -/
def Block.Legible (ok : String → Prop) : Block → Prop
  | .simple text => IsCommandLine ok text
  | .conditional test body rest => Neat test ∧ Block.LegibleAll ok body ∧ rest.Legible ok
  | .function name body => ok name ∧ Block.LegibleAll ok body
  | .choice word arms => Neat word ∧ Arm.LegibleAll ok arms

/-- The same of every block of a list. -/
def Block.LegibleAll (ok : String → Prop) : List Block → Prop
  | [] => True
  | b :: bs => b.Legible ok ∧ Block.LegibleAll ok bs

/-- The same of what follows a branch. -/
def Alternative.Legible (ok : String → Prop) : Alternative → Prop
  | .none => True
  | .elif test body rest => Neat test ∧ Block.LegibleAll ok body ∧ rest.Legible ok
  | .otherwise body => Block.LegibleAll ok body

/-- The same of every arm of a list. -/
def Arm.LegibleAll (ok : String → Prop) : List Arm → Prop
  | [] => True
  | .mk label body :: arms => IsLabel label ∧ Block.LegibleAll ok body ∧ Arm.LegibleAll ok arms

end

section Lists

variable {ok : String → Prop} {bs bs' : List Block}

theorem Block.layoutAll_append :
    Block.layoutAll (bs ++ bs') = Block.layoutAll bs ++ Block.layoutAll bs' := by
  induction bs with
  | nil => rfl
  | cons b bs ih =>
    show b.layout ++ Block.layoutAll (bs ++ bs') = b.layout ++ Block.layoutAll bs ++ _
    rw [ih, List.append_assoc]

theorem Block.legibleAll_append :
    Block.LegibleAll ok (bs ++ bs') ↔ Block.LegibleAll ok bs ∧ Block.LegibleAll ok bs' := by
  induction bs with
  | nil => exact (and_iff_right trivial).symm
  | cons b bs ih =>
    show b.Legible ok ∧ Block.LegibleAll ok (bs ++ bs')
      ↔ (b.Legible ok ∧ Block.LegibleAll ok bs) ∧ _
    rw [ih, and_assoc]

theorem Block.legibleAll_simple {texts : List String} (h : ∀ t ∈ texts, IsCommandLine ok t) :
    Block.LegibleAll ok (texts.map .simple) := by
  induction texts with
  | nil => trivial
  | cons t texts ih =>
    rw [List.forall_mem_cons] at h
    exact ⟨h.1, ih h.2⟩

theorem Arm.layoutAll_append (arms arms' : List Arm) :
    Arm.layoutAll (arms ++ arms') = Arm.layoutAll arms ++ Arm.layoutAll arms' := by
  induction arms with
  | nil => rfl
  | cons a arms ih =>
    obtain ⟨label, body⟩ := a
    show (0, label ++ ")") :: deeper (Block.layoutAll body)
        ++ (0, ";;") :: Arm.layoutAll (arms ++ arms') = _
    rw [ih]
    simp [Arm.layoutAll]

theorem Arm.legibleAll_append {arms arms' : List Arm} :
    Arm.LegibleAll ok (arms ++ arms') ↔ Arm.LegibleAll ok arms ∧ Arm.LegibleAll ok arms' := by
  induction arms with
  | nil => exact (and_iff_right trivial).symm
  | cons a arms ih =>
    obtain ⟨label, body⟩ := a
    show IsLabel label ∧ Block.LegibleAll ok body ∧ Arm.LegibleAll ok (arms ++ arms')
      ↔ (IsLabel label ∧ Block.LegibleAll ok body ∧ Arm.LegibleAll ok arms) ∧ _
    rw [ih, and_assoc, and_assoc]

end Lists

/-! ## Lines of legible blocks -/

/-- **A line of a script**: neat, and at its margin there is neither white
space nor the sign of a comment. -/
structure IsLine (text : String) : Prop where
  /-- A line is neat. -/
  neat : Neat text
  /-- Its first character is no white space and begins no comment. -/
  begins : ∃ c, text.toList.head? = some c ∧ isBlank c = false ∧ c ≠ '#'

theorem IsLine.ne_empty {text : String} (h : IsLine text) : text ≠ "" := by
  rintro rfl
  obtain ⟨c, hc, -⟩ := h.begins
  cases hc

/-- A line that begins with a fixed text. -/
theorem isLine_append (s : String) {t : String} (hs : Settled s.toList) (ht : Neat t)
    (h : (s.toList.head?.any fun c => !isBlank c && c ≠ '#') = true) : IsLine (s ++ t) := by
  refine ⟨Neat.append hs ht, ?_⟩
  obtain ⟨c, hc, hbegins⟩ := (Option.any_eq_true _ _).1 h
  refine ⟨c, ?_, by simpa using hbegins⟩
  rw [String.toList_append, List.head?_append, hc]
  rfl

theorem isLine_of_beginsWith {word text : String} (hneat : Neat text) (h : BeginsWith word text)
    (hword : word.toList ≠ []) (hchars : ∀ c ∈ word.toList, isBlank c = false ∧ c ≠ '#') :
    IsLine text := by
  obtain ⟨rest, htext, -⟩ := h
  obtain ⟨c, cs, hcs⟩ := List.exists_cons_of_ne_nil hword
  refine ⟨hneat, c, ?_, hchars c (hcs ▸ List.mem_cons_self)⟩
  rw [htext, hcs]
  rfl

theorem ne_number_of_isNameChar {c : Char} (h : isNameChar c = true) : c ≠ '#' := by
  rintro rfl
  exact absurd h (by decide)

theorem forall_deeper {P : String → Prop} {lines : List (Nat × String)} :
    (∀ line ∈ deeper lines, P line.2) ↔ ∀ line ∈ lines, P line.2 := List.forall_mem_map

section CommandLine

variable {ok : String → Prop} (hok : ∀ name, ok name → isName name = true)
include hok

theorem IsCommandLine.isLine {text : String} (h : IsCommandLine ok text) : IsLine text := by
  obtain ⟨word, hword, hbegins⟩ := h.begins
  rcases hword with hname | hbuiltin
  · obtain ⟨hne, hchars⟩ := isNameChar_of_isName (hok word hname)
    refine isLine_of_beginsWith h.neat hbegins hne fun c hc => ?_
    exact ⟨isBlank_of_isNameChar (hchars c hc), ne_number_of_isNameChar (hchars c hc)⟩
  · have hwords : ∀ word ∈ builtinWords, word.toList ≠ []
        ∧ word.toList.all (fun c => !isBlank c && c != '#') = true := by decide
    obtain ⟨hne, hchars⟩ := hwords word hbuiltin
    refine isLine_of_beginsWith h.neat hbegins hne fun c hc => ?_
    simpa using List.all_eq_true.1 hchars c hc

theorem isLine_function {name : String} (h : ok name) : IsLine (name ++ "() \x7b") := by
  have hname := hok name h
  obtain ⟨hne, hchars⟩ := isNameChar_of_isName hname
  obtain ⟨c, cs, hcs⟩ := List.exists_cons_of_ne_nil hne
  have hc : isNameChar c = true := hchars c (hcs ▸ List.mem_cons_self)
  refine ⟨?_, c, ?_, isBlank_of_isNameChar hc, ne_number_of_isNameChar hc⟩
  · exact Neat.append (neat_of_isName hname).settled
      (neat_of_all "() \x7b" (by decide) (by decide))
  · rw [String.toList_append, hcs]
    rfl

omit hok in
theorem IsLabel.isLine {label : String} (h : IsLabel label) : IsLine (label ++ ")") := by
  obtain ⟨c, hc, hhead⟩ := h.begins
  have hall : ['"', '$', '*'].all (fun c => !isBlank c && c != '#') = true := by decide
  have hchars : isBlank c = false ∧ c ≠ '#' := by simpa using List.all_eq_true.1 hall c hc
  refine ⟨Neat.append h.neat.settled (neat_of_all ")" (by decide) (by decide)), c, ?_, hchars⟩
  rw [String.toList_append, List.head?_append, hhead]
  rfl

end CommandLine

section Legible

variable {ok : String → Prop}

mutual

/-- **Every line of a legible block is a line of a script.** -/
theorem Block.isLine_of_mem_layout (hok : ∀ name, ok name → isName name = true) :
    (b : Block) → b.Legible ok → ∀ line ∈ b.layout, IsLine line.2
  | .simple text, h => List.forall_mem_singleton.2 (h.isLine hok)
  | .conditional test body rest, h => by
    obtain ⟨htest, hbody, hrest⟩ := h
    rw [Block.layout, List.forall_mem_append, List.forall_mem_append, List.forall_mem_cons,
      forall_deeper, List.forall_mem_singleton]
    refine ⟨⟨⟨?_, Block.isLine_of_mem_layoutAll hok body hbody⟩,
      rest.isLine_of_mem_layout hok hrest⟩, ?_⟩
    · rw [String.append_assoc]
      exact isLine_append "if " (settled_of_all _ (by decide))
        (Neat.append htest.settled (neat_of_all "; then" (by decide) (by decide))) (by decide)
    · exact ⟨neat_of_all _ (by decide) (by decide), 'f', by decide⟩
  | .function name body, h => by
    rw [Block.layout, List.forall_mem_append, List.forall_mem_cons, forall_deeper,
      List.forall_mem_singleton]
    refine ⟨⟨isLine_function hok h.1, Block.isLine_of_mem_layoutAll hok body h.2⟩, ?_⟩
    exact ⟨neat_of_all _ (by decide) (by decide), '\x7d', by decide⟩
  | .choice word arms, h => by
    rw [Block.layout, List.forall_mem_append, List.forall_mem_cons, forall_deeper,
      List.forall_mem_singleton]
    refine ⟨⟨?_, Arm.isLine_of_mem_layoutAll hok arms h.2⟩, ?_⟩
    · rw [String.append_assoc]
      exact isLine_append "case " (settled_of_all _ (by decide))
        (Neat.append h.1.settled (neat_of_all " in" (by decide) (by decide))) (by decide)
    · exact ⟨neat_of_all _ (by decide) (by decide), 'e', by decide⟩

theorem Block.isLine_of_mem_layoutAll (hok : ∀ name, ok name → isName name = true) :
    (bs : List Block) → Block.LegibleAll ok bs → ∀ line ∈ Block.layoutAll bs, IsLine line.2
  | [], _ => nofun
  | b :: bs, h => List.forall_mem_append.2
    ⟨b.isLine_of_mem_layout hok h.1, Block.isLine_of_mem_layoutAll hok bs h.2⟩

theorem Alternative.isLine_of_mem_layout (hok : ∀ name, ok name → isName name = true) :
    (rest : Alternative) → rest.Legible ok → ∀ line ∈ rest.layout, IsLine line.2
  | .none, _ => nofun
  | .elif test body rest, h => by
    obtain ⟨htest, hbody, hrest⟩ := h
    rw [Alternative.layout, List.forall_mem_append, List.forall_mem_cons, forall_deeper]
    refine ⟨⟨?_, Block.isLine_of_mem_layoutAll hok body hbody⟩, rest.isLine_of_mem_layout hok hrest⟩
    rw [String.append_assoc]
    exact isLine_append "elif " (settled_of_all _ (by decide))
      (Neat.append htest.settled (neat_of_all "; then" (by decide) (by decide))) (by decide)
  | .otherwise body, h => by
    rw [Alternative.layout, List.forall_mem_cons, forall_deeper]
    refine ⟨?_, Block.isLine_of_mem_layoutAll hok body h⟩
    exact ⟨neat_of_all _ (by decide) (by decide), 'e', by decide⟩

theorem Arm.isLine_of_mem_layoutAll (hok : ∀ name, ok name → isName name = true) :
    (arms : List Arm) → Arm.LegibleAll ok arms → ∀ line ∈ Arm.layoutAll arms, IsLine line.2
  | [], _ => nofun
  | .mk label body :: arms, h => by
    obtain ⟨hlabel, hbody, harms⟩ := h
    rw [Arm.layoutAll, List.forall_mem_append, List.forall_mem_cons, forall_deeper,
      List.forall_mem_cons]
    refine ⟨⟨hlabel.isLine, Block.isLine_of_mem_layoutAll hok body hbody⟩, ?_,
      Arm.isLine_of_mem_layoutAll hok arms harms⟩
    exact ⟨neat_of_all _ (by decide) (by decide), ';', by decide⟩

end

end Legible

/-! ## No line is mistaken for another -/

theorem between?_append (opening middle closing : String) :
    between? opening closing (opening ++ middle ++ closing) = some middle := by
  have hrest : (opening ++ middle ++ closing).toList.drop opening.toList.length
      = middle.toList ++ closing.toList := by
    rw [String.toList_append, String.toList_append, List.append_assoc, List.drop_left]
  unfold between?
  rw [hrest, if_pos ⟨by simp, List.suffix_append _ _⟩]
  simp

theorem eq_append_of_between? {opening closing text middle : String}
    (h : between? opening closing text = some middle) : text = opening ++ middle ++ closing := by
  unfold between? at h
  dsimp only at h
  split at h
  · rename_i hparts
    obtain ⟨⟨rest, hopening⟩, ⟨start, hclosing⟩⟩ := hparts
    rw [← hopening, List.drop_left] at hclosing h
    cases h
    rw [← String.toList_inj, ← hopening, ← hclosing]
    simp
  · cases h

/-- The first word of a line. -/
def firstWord (text : String) : String :=
  String.ofList (text.toList.takeWhile fun c => c ≠ ' ' && c ≠ '=')

theorem BeginsWith.firstWord_eq {word text : String} (h : BeginsWith word text)
    (hword : word.toList.all (fun c => c ≠ ' ' && c ≠ '=') = true) : firstWord text = word := by
  obtain ⟨rest, htext, hrest⟩ := h
  have hnil : rest.takeWhile (fun c => c ≠ ' ' && c ≠ '=') = [] := by
    cases rest with
    | nil => rfl
    | cons c rest =>
      rw [List.takeWhile_cons, if_neg]
      rcases hrest c rfl with rfl | rfl <;> decide
  unfold firstWord
  rw [htext, List.takeWhile_append_of_pos (List.all_eq_true.1 hword), hnil, List.append_nil,
    String.ofList_toList]

/-- A text that a keyword and a blank open begins with the keyword. -/
theorem firstWord_of_between? {word closing text middle : String}
    (h : between? (word ++ " ") closing text = some middle)
    (hword : word.toList.all (fun c => c ≠ ' ' && c ≠ '=') = true) : firstWord text = word := by
  rw [eq_append_of_between? h, String.append_assoc, String.append_assoc]
  exact (beginsWith_append (c := ' ') (by simp) (.inl rfl)).firstWord_eq hword

theorem between?_eq_none {text : String} (word closing : String) (h : firstWord text ≠ word)
    (hword : word.toList.all (fun c => c ≠ ' ' && c ≠ '=') = true) :
    between? (word ++ " ") closing text = none :=
  Option.eq_none_iff_forall_ne_some.2 fun _ hsome => h (firstWord_of_between? hsome hword)

/-- A keyword is its own first word. -/
theorem lookup_keywords {text : String} (h : firstWord text ∉ keywords.map (·.1)) :
    keywords.lookup text = none := by
  have hself : ∀ entry ∈ keywords, firstWord entry.1 = entry.1 := by decide
  rw [List.lookup_eq_none_iff]
  intro entry hentry
  rw [bne_iff_ne]
  rintro rfl
  refine h ?_
  rw [hself entry hentry]
  exact List.mem_map_of_mem hentry

namespace LineKind

/-- A line that begins with none of the keywords is a function or simple. -/
theorem of_eq {text : String} (hkeyword : firstWord text ∉ keywords.map (·.1))
    (hopening : firstWord text ∉ ["if", "elif", "case"]) :
    of text = (((between? "" "() \x7b" text).filter isName).map function).getD simple := by
  simp only [List.mem_cons, List.not_mem_nil, or_false, not_or] at hopening
  have hif : between? "if " "; then" text = none :=
    between?_eq_none "if" _ hopening.1 (by decide)
  have helif : between? "elif " "; then" text = none :=
    between?_eq_none "elif" _ hopening.2.1 (by decide)
  have hcase : between? "case " " in" text = none :=
    between?_eq_none "case" _ hopening.2.2 (by decide)
  unfold of
  rw [lookup_keywords hkeyword, hif, helif, hcase]
  rfl

theorem of_opens (test : String) : of ("if " ++ test ++ "; then") = opens test := by
  have hfirst : firstWord ("if " ++ test ++ "; then") = "if" :=
    firstWord_of_between? (between?_append "if " test "; then") (by decide)
  unfold of
  rw [lookup_keywords (by rw [hfirst]; decide), between?_append]
  rfl

theorem of_chains (test : String) : of ("elif " ++ test ++ "; then") = chains test := by
  have hfirst : firstWord ("elif " ++ test ++ "; then") = "elif" :=
    firstWord_of_between? (between?_append "elif " test "; then") (by decide)
  have hif : between? "if " "; then" ("elif " ++ test ++ "; then") = none :=
    between?_eq_none "if" _ (by rw [hfirst]; decide) (by decide)
  unfold of
  rw [lookup_keywords (by rw [hfirst]; decide), hif, between?_append]
  rfl

theorem of_choice (word : String) : of ("case " ++ word ++ " in") = choice word := by
  have hfirst : firstWord ("case " ++ word ++ " in") = "case" :=
    firstWord_of_between? (between?_append "case " word " in") (by decide)
  have hif : between? "if " "; then" ("case " ++ word ++ " in") = none :=
    between?_eq_none "if" _ (by rw [hfirst]; decide) (by decide)
  have helif : between? "elif " "; then" ("case " ++ word ++ " in") = none :=
    between?_eq_none "elif" _ (by rw [hfirst]; decide) (by decide)
  unfold of
  rw [lookup_keywords (by rw [hfirst]; decide), hif, helif, between?_append]
  rfl

/-- The parentheses belong to the first word of a function's line, and no
keyword has any. -/
theorem firstWord_function {name : String} (h : isName name = true) :
    firstWord (name ++ "() \x7b") = name ++ "()" := by
  have hsplit : name ++ "() \x7b" = name ++ "()" ++ " \x7b" := by
    rw [String.append_assoc]
    rfl
  rw [hsplit]
  refine (beginsWith_append (c := ' ') (by decide) (.inl rfl)).firstWord_eq ?_
  rw [String.toList_append, List.all_append, Bool.and_eq_true, List.all_eq_true]
  refine ⟨fun c hc => ?_, by decide⟩
  have hchar := (isNameChar_of_isName h).2 c hc
  have hblank : c ≠ ' ' := by
    rintro rfl
    exact absurd hchar (by decide)
  have hequal : c ≠ '=' := by
    rintro rfl
    exact absurd hchar (by decide)
  simp [hblank, hequal]

theorem of_function {name : String} (h : isName name = true) :
    of (name ++ "() \x7b") = function name := by
  have hparen : ∀ word : String, ')' ∉ word.toList → firstWord (name ++ "() \x7b") ≠ word := by
    rintro word hword rfl
    refine hword ?_
    rw [firstWord_function h, String.toList_append]
    exact List.mem_append_right _ (by decide)
  have hbetween : between? "" "() \x7b" (name ++ "() \x7b") = some name := by
    have happend := between?_append "" name "() \x7b"
    rwa [String.empty_append] at happend
  have hkeywords : ∀ word ∈ keywords.map (·.1), ')' ∉ word.toList := by decide
  have hopenings : ∀ word ∈ ["if", "elif", "case"], ')' ∉ word.toList := by decide
  rw [of_eq (fun hmem => hparen _ (hkeywords _ hmem) rfl)
    (fun hmem => hparen _ (hopenings _ hmem) rfl), hbetween, Option.filter_some, if_pos h]
  rfl

/-- **A command line is simple**, whatever stands behind its first word. -/
theorem of_commandLine {ok : String → Prop}
    (hok : ∀ name, ok name → isName name = true ∧ name ∉ blockWords) {text : String}
    (h : IsCommandLine ok text) : of text = simple := by
  obtain ⟨word, hword, hbegins⟩ := h.begins
  have hchars : ∀ c ∈ word.toList, isNameChar c = true ∨ c = ':' := by
    rcases hword with hname | hbuiltin
    · exact fun c hc => .inl ((isNameChar_of_isName (hok word hname).1).2 c hc)
    · have hwords : ∀ word ∈ builtinWords,
          word.toList.all (fun c => isNameChar c || c == ':') = true := by decide
      exact fun c hc => by simpa using List.all_eq_true.1 (hwords word hbuiltin) c hc
  have hfirst : firstWord text = word := by
    refine hbegins.firstWord_eq (List.all_eq_true.2 fun c hc => ?_)
    have hblank : c ≠ ' ' := by
      rintro rfl
      exact absurd (hchars _ hc) (by decide)
    have hequal : c ≠ '=' := by
      rintro rfl
      exact absurd (hchars _ hc) (by decide)
    simp [hblank, hequal]
  -- a keyword is a name that is taken, or no name at all
  have hother : ∀ other, other ∉ builtinWords → (isName other = false ∨ other ∈ blockWords) →
      firstWord text ≠ other := by
    rintro other hbuiltin hnone rfl
    rw [hfirst] at hbuiltin hnone
    rcases hword with hname | hmem
    · obtain ⟨hisName, hblock⟩ := hok word hname
      rcases hnone with hfalse | hmem
      · rw [hisName] at hfalse
        cases hfalse
      · exact hblock hmem
    · exact hbuiltin hmem
  have hkeywords : ∀ other ∈ keywords.map (·.1),
      other ∉ builtinWords ∧ (isName other = false ∨ other ∈ blockWords) := by decide
  have hopenings : ∀ other ∈ ["if", "elif", "case"],
      other ∉ builtinWords ∧ (isName other = false ∨ other ∈ blockWords) := by decide
  have hfunction : (between? "" "() \x7b" text).filter isName = none := by
    rw [Option.filter_eq_none_iff]
    intro name hbetween hname
    have htext := eq_append_of_between? hbetween
    rw [String.empty_append] at htext
    rw [htext, firstWord_function hname] at hfirst
    have hparen : '(' ∈ word.toList := by
      rw [← hfirst, String.toList_append]
      exact List.mem_append_right _ (by decide)
    exact absurd (hchars _ hparen) (by decide)
  rw [of_eq (fun hmem => hother _ (hkeywords _ hmem).1 (hkeywords _ hmem).2 rfl)
    (fun hmem => hother _ (hopenings _ hmem).1 (hopenings _ hmem).2 rfl), hfunction]
  rfl

end LineKind

/-! ## Reading back -/

/-- The texts of lines, whatever their depths. -/
def texts (lines : List (Nat × String)) : List String := lines.map (·.2)

theorem texts_cons (line : Nat × String) (lines : List (Nat × String)) :
    texts (line :: lines) = line.2 :: texts lines := rfl

theorem texts_append (lines lines' : List (Nat × String)) :
    texts (lines ++ lines') = texts lines ++ texts lines' := List.map_append

theorem texts_deeper (lines : List (Nat × String)) : texts (deeper lines) = texts lines := by
  unfold texts deeper
  rw [List.map_map]
  rfl

namespace BlockReader

theorem step_inBody (blocks : List Block) (outer : List OpenBlock) (text : String) :
    step (.inBody blocks outer) text = inside blocks outer text (LineKind.of text) := rfl

/-- Where a label is due, a line that ends in a parenthesis is one. -/
theorem step_label (label : String) (before : List Block) (word : String) (arms : List Arm)
    (outer : List OpenBlock) :
    step (.betweenArms before word arms outer) (label ++ ")")
      = some (.inBody [] (.arm before word arms label :: outer)) := by
  have hne : label ++ ")" ≠ "esac" := by
    intro h
    have hlast := congrArg (fun t : String => t.toList.getLast?) h
    simp at hlast
  have hbetween : between? "" ")" (label ++ ")") = some label := by
    have happend := between?_append "" label ")"
    rwa [String.empty_append] at happend
  show (if label ++ ")" = "esac" then _ else _) = _
  rw [if_neg hne, hbetween]
  rfl

end BlockReader

section Reading

variable {ok : String → Prop}

open BlockReader

mutual

/-- **Reading the lines of a block** adds the block to those before it. -/
theorem Block.foldlM_layout (hok : ∀ name, ok name → isName name = true ∧ name ∉ blockWords) :
    (b : Block) → b.Legible ok → ∀ blocks outer,
      (texts b.layout).foldlM step (.inBody blocks outer) = some (.inBody (blocks ++ [b]) outer)
  | .simple text, h, blocks, outer => by
    show step (.inBody blocks outer) text >>= pure = _
    rw [step_inBody, LineKind.of_commandLine hok h]
    rfl
  | .conditional test body rest, h, blocks, outer => by
    obtain ⟨-, hbody, hrest⟩ := h
    rw [Block.layout, List.append_assoc, texts_append, texts_cons, texts_deeper,
      List.foldlM_append, List.foldlM_cons, step_inBody, LineKind.of_opens]
    show ((texts (Block.layoutAll body)).foldlM step _ >>= fun r => _) = _
    rw [Block.foldlM_layoutAll hok body hbody]
    exact rest.foldlM_layout hok hrest blocks (.conditional test) body outer
  | .function name body, h, blocks, outer => by
    rw [Block.layout, texts_append, texts_cons, texts_deeper, List.foldlM_append,
      List.foldlM_cons, step_inBody, LineKind.of_function (hok name h.1).1]
    show ((texts (Block.layoutAll body)).foldlM step _ >>= fun r => _) = _
    rw [Block.foldlM_layoutAll hok body h.2]
    rfl
  | .choice word arms, h, blocks, outer => by
    rw [Block.layout, texts_append, texts_cons, texts_deeper, List.foldlM_append,
      List.foldlM_cons, step_inBody, LineKind.of_choice]
    show ((texts (Arm.layoutAll arms)).foldlM step _ >>= fun r => _) = _
    rw [Arm.foldlM_layoutAll hok arms h.2]
    rfl

theorem Block.foldlM_layoutAll (hok : ∀ name, ok name → isName name = true ∧ name ∉ blockWords) :
    (bs : List Block) → Block.LegibleAll ok bs → ∀ blocks outer,
      (texts (Block.layoutAll bs)).foldlM step (.inBody blocks outer)
        = some (.inBody (blocks ++ bs) outer)
  | [], _, blocks, outer => by
    rw [List.append_nil]
    rfl
  | b :: bs, h, blocks, outer => by
    rw [Block.layoutAll, texts_append, List.foldlM_append, b.foldlM_layout hok h.1]
    show (texts (Block.layoutAll bs)).foldlM step _ = _
    rw [Block.foldlM_layoutAll hok bs h.2, List.append_assoc]
    rfl

/-- Reading on to the end of an `if` closes it with the branch that is
open and the rest. -/
theorem Alternative.foldlM_layout
    (hok : ∀ name, ok name → isName name = true ∧ name ∉ blockWords) :
    (rest : Alternative) → rest.Legible ok → ∀ before close blocks outer,
      (texts (rest.layout ++ [(0, "fi")])).foldlM step
          (.inBody blocks (.branch before close :: outer))
        = some (.inBody (before ++ [close blocks rest]) outer)
  | .none, _, before, close, blocks, outer => rfl
  | .elif test body rest, h, before, close, blocks, outer => by
    obtain ⟨-, hbody, hrest⟩ := h
    rw [Alternative.layout, List.append_assoc, texts_append, texts_cons, texts_deeper,
      List.foldlM_append, List.foldlM_cons, step_inBody, LineKind.of_chains]
    show ((texts (Block.layoutAll body)).foldlM step _ >>= fun r => _) = _
    rw [Block.foldlM_layoutAll hok body hbody]
    exact rest.foldlM_layout hok hrest before _ body outer
  | .otherwise body, h, before, close, blocks, outer => by
    rw [Alternative.layout, texts_append, texts_cons, texts_deeper, List.foldlM_append,
      List.foldlM_cons]
    show ((texts (Block.layoutAll body)).foldlM step _ >>= fun r => _) = _
    rw [Block.foldlM_layoutAll hok body h]
    rfl

theorem Arm.foldlM_layoutAll (hok : ∀ name, ok name → isName name = true ∧ name ∉ blockWords) :
    (arms : List Arm) → Arm.LegibleAll ok arms → ∀ before word done outer,
      (texts (Arm.layoutAll arms)).foldlM step (.betweenArms before word done outer)
        = some (.betweenArms before word (done ++ arms) outer)
  | [], _, before, word, done, outer => by
    rw [List.append_nil]
    rfl
  | .mk label body :: arms, h, before, word, done, outer => by
    obtain ⟨-, hbody, harms⟩ := h
    rw [Arm.layoutAll, texts_append, texts_cons, texts_deeper, List.foldlM_append,
      List.foldlM_cons, step_label]
    show ((texts (Block.layoutAll body)).foldlM step _ >>= fun r => _) = _
    rw [Block.foldlM_layoutAll hok body hbody]
    show (texts (Arm.layoutAll arms)).foldlM step _ = _
    rw [Arm.foldlM_layoutAll hok arms harms, List.append_assoc]
    rfl

end

end Reading

/-! ## Indentation -/

theorem indentation_succ (unit : Indent) (depth : Nat) :
    indentation unit (depth + 1) = indentation unit 1 ++ indentation unit depth := by
  rw [← String.toList_inj, String.toList_append]
  cases unit with
  | spaces n =>
    show (String.ofList _).toList = (String.ofList _).toList ++ (String.ofList _).toList
    rw [String.toList_ofList, String.toList_ofList, String.toList_ofList,
      List.replicate_append_replicate, Nat.mul_add, Nat.add_comm]
  | tabs =>
    show (String.ofList _).toList = (String.ofList _).toList ++ (String.ofList _).toList
    rw [String.toList_ofList, String.toList_ofList, String.toList_ofList,
      List.replicate_append_replicate, Nat.add_comm]

theorem isBlank_of_mem_indentation {unit : Indent} {depth : Nat} {c : Char}
    (h : c ∈ (indentation unit depth).toList) : isBlank c = true ∧ c ≠ '\n' := by
  cases unit with
  | spaces n =>
    rw [indentation, String.toList_ofList] at h
    rw [List.eq_of_mem_replicate h]
    decide
  | tabs =>
    rw [indentation, String.toList_ofList] at h
    rw [List.eq_of_mem_replicate h]
    decide

/-- Stripping a line of its indentation gives its text back. -/
theorem stripped_placed {unit : Indent} {line : Nat × String} (h : IsLine line.2) :
    stripped (placed unit line) = line.2 := by
  obtain ⟨c, hc, hblank, -⟩ := h.begins
  obtain ⟨cs, hcs⟩ : ∃ cs, line.2.toList = c :: cs := by
    cases htext : line.2.toList with
    | nil =>
      rw [htext] at hc
      cases hc
    | cons d cs =>
      rw [htext] at hc
      cases hc
      exact ⟨cs, rfl⟩
  unfold stripped placed
  rw [String.toList_append, List.dropWhile_append_of_pos fun c hc =>
    (isBlank_of_mem_indentation hc).1, hcs, List.dropWhile_cons_of_neg (by simp [hblank]), ← hcs,
    String.ofList_toList]

/-- **Lines that show a layout**: apart from empty lines, they are the lines
of the layout, each indented by its depth. -/
def Shows (unit : Indent) (lines : List String) (layout : List (Nat × String)) : Prop :=
  lines.filter (· ≠ "") = layout.map (placed unit)

/-- **A layout can be read back** from the lines that show it. -/
theorem Block.read?_layout {ok : String → Prop}
    (hok : ∀ name, ok name → isName name = true ∧ name ∉ blockWords) {unit : Indent}
    {lines : List String} {blocks : List Block} (h : Shows unit lines (Block.layoutAll blocks))
    (hlegible : Block.LegibleAll ok blocks) : Block.read? lines = some blocks := by
  have hlines :=
    Block.isLine_of_mem_layoutAll (fun name hname => (hok name hname).1) blocks hlegible
  -- a line that is not empty is one of the layout, and keeps its text
  have hmem : ∀ line ∈ lines, line ≠ "" → ∃ l ∈ Block.layoutAll blocks, placed unit l = line := by
    intro line hline hne
    have hfilter : line ∈ lines.filter (· ≠ "") := List.mem_filter.2 ⟨hline, decide_eq_true hne⟩
    rw [h] at hfilter
    exact List.mem_map.1 hfilter
  have hempty : ∀ line ∈ lines, (decide (stripped line ≠ "")) = decide (line ≠ "") := by
    intro line hline
    by_cases hne : line = ""
    · rw [hne]
      rfl
    · obtain ⟨l, hl, rfl⟩ := hmem line hline hne
      rw [stripped_placed (hlines l hl), decide_eq_true hne, decide_eq_true (hlines l hl).ne_empty]
  have htexts : (lines.map stripped).filter (· ≠ "") = texts (Block.layoutAll blocks) := by
    rw [List.filter_map]
    show (lines.filter fun line => decide (stripped line ≠ "")).map stripped = _
    rw [List.filter_congr hempty, h, List.map_map]
    exact List.map_congr_left fun l hl => stripped_placed (hlines l hl)
  unfold Block.read?
  rw [htexts, Block.foldlM_layoutAll hok blocks hlegible]
  rfl

end ScriptToShell.Shell
