import ScriptToShell.Proofs.Quotation

/-!
# Lists of commands

A shell joins commands by `&&` and `||`. The two bind equally strong and
are read from left to right: each one looks at the status of *all* that
stands before it. A `!` negates the one item behind it, and braces make a
list an item. So the structure of a line is not that of the expression it
may have come from, and it takes braces to say `a && (b || c)`.

`CommandList` is that structure, `CommandList.read?` finds it in a text
and `CommandList.run` runs it. How a command is run is left open: it may
be any effect that yields a status, so two lists that run alike run the
same commands in the same order, whatever these do.

The main statement is `CommandList.read?_print`: a list that is printed
is read back as it was, if its commands consist of words. Together with
`CommandList.run_append` this is all that is needed to know how a line
runs that has been put together from parts.
-/

namespace ScriptToShell

open Text (joinWith)

/-! ## Running -/

/-- **Short circuit**: the second effect takes place only if the outcome
of the first one leaves the result open. -/
def LogicalOp.chain {m : Type → Type} [Monad m] (op : LogicalOp) (x y : m Bool) : m Bool :=
  x >>= fun b => match op with
    | .and => if b then y else pure false
    | .or => if b then pure true else y

section Chain

variable {m : Type → Type} [Monad m] [LawfulMonad m]

/-- Effects under one operator may be grouped either way. -/
theorem LogicalOp.chain_assoc (op : LogicalOp) (x y z : m Bool) :
    op.chain (op.chain x y) z = op.chain x (op.chain y z) := by
  unfold chain
  rw [bind_assoc]
  refine bind_congr fun b => ?_
  cases op <;> cases b <;> simp

/-- What is true anyway does not count at the end of a conjunction. -/
theorem LogicalOp.chain_pure_true (x : m Bool) : LogicalOp.and.chain x (pure true) = x := by
  have hb : ∀ b : Bool, (if b then pure true else pure false : m Bool) = pure b := by
    rintro (_ | _) <;> rfl
  simp [chain, hb]

omit [LawfulMonad m] in
/-- Tests of which all have to hold are a conjunction. -/
theorem LogicalOp.allM_cons {α : Type} (p : α → m Bool) (a : α) (as : List α) :
    (a :: as).allM p = LogicalOp.and.chain (p a) (as.allM p) := by
  rw [List.allM, chain]
  refine bind_congr fun b => ?_
  cases b <;> rfl

/-- What a short circuit does to a state. -/
theorem LogicalOp.run_chain {σ : Type} (op : LogicalOp) (x y : StateM σ Bool) (s : σ) :
    (op.chain x y).run s
      = if (x.run s).1 = decide (op = .and) then y.run (x.run s).2 else x.run s := by
  rw [chain, StateT.run_bind]
  show StateT.run (match op with | .and => _ | .or => _) (x.run s).2 = _
  rcases x.run s with ⟨_ | _, s'⟩ <;> cases op <;> rfl

end Chain

namespace Shell

mutual

/-- **A list of commands**, read from left to right. -/
inductive CommandList where
  | item (i : Item)
  | join (before : CommandList) (op : LogicalOp) (i : Item)

/-- **An item of a list.** A command is given by its words. -/
inductive Item where
  | command (words : List String)
  | negated (i : Item)
  | group (list : CommandList)

end

section Run

variable {m : Type → Type} [Monad m]

mutual

/-- **Runs a list** in a way to run commands, and yields its status. -/
def CommandList.run (exec : String → m Bool) : CommandList → m Bool
  | .item i => i.run exec
  | .join before op i => op.chain (before.run exec) (i.run exec)

/-- Runs an item. -/
def Item.run (exec : String → m Bool) : Item → m Bool
  | .command words => exec (joinWith " " words)
  | .negated i => (!·) <$> i.run exec
  | .group list => list.run exec

end

end Run

/-! ## Reading -/

/-- **A token of a line.** -/
inductive Token where
  | word (text : String)
  | op (o : LogicalOp)
  | semicolon
deriving DecidableEq, Repr, Inhabited

namespace Token

/-- Puts the word that has been read before the tokens that follow; there
may be none. -/
def ending (word : List Char) (rest : List Token) : List Token :=
  if word.isEmpty then rest else .word (String.ofList word) :: rest

/-- **The tokens of a line**, from its glyphs and the part of a word that
has been read. One ampersand and one bar mean something else. -/
def ofGlyphs? (word : List Char) : List Glyph → Option (List Token)
  | [] => some (ending word [])
  | .text c :: rest => ofGlyphs? (word ++ [c]) rest
  | .blank :: rest => (ofGlyphs? [] rest).map (ending word)
  | .semicolon :: rest => (ofGlyphs? [] rest).map (ending word ∘ (.semicolon :: ·))
  | .ampersand :: .ampersand :: rest =>
    (ofGlyphs? [] rest).map (ending word ∘ (.op .and :: ·))
  | .bar :: .bar :: rest => (ofGlyphs? [] rest).map (ending word ∘ (.op .or :: ·))
  | .ampersand :: _ | .bar :: _ => none

end Token

/-- **What stands before an item** at its level: the list so far with the
operator behind it, and the negations. -/
structure Level where
  /-- The list so far. -/
  before : Option (CommandList × LogicalOp) := none
  /-- The number of negations. -/
  negations : Nat := 0

namespace Level

/-- An item behind its negations. -/
def negate : Nat → Item → Item
  | 0, i => i
  | k + 1, i => negate k (.negated i)

/-- The list with the next item. -/
def close (level : Level) (i : Item) : CommandList :=
  match level.before with
  | none => .item (negate level.negations i)
  | some (before, op) => .join before op (negate level.negations i)

end Level

/-- **How far a line has been read**, with the levels around the current
one, the innermost first. -/
inductive Reading where
  /-- An item is to come. -/
  | start (level : Level) (outer : List Level)
  /-- Inside a command. -/
  | command (words : List String) (level : Level) (outer : List Level)
  /-- Behind a group. -/
  | closed (list : CommandList) (outer : List Level)
  /-- Behind a semicolon. -/
  | ended (list : CommandList) (outer : List Level)

namespace Reading

/-- What may follow a list: an operator, or the semicolon that ends it. -/
def next (list : CommandList) (outer : List Level) : Token → Option Reading
  | .op o => some (.start { before := some (list, o) } outer)
  | .semicolon => some (.ended list outer)
  | .word _ => none

/-- **Reads one token.** `!` and braces are special only where a command
may begin. -/
def step : Reading → Token → Option Reading
  | .start level outer, .word text =>
    if text = "!" then some (.start { level with negations := level.negations + 1 } outer)
    else if text = "\x7b" then some (.start {} (level :: outer))
    else if text = "\x7d" then none
    else some (.command [text] level outer)
  | .start _ _, _ => none
  | .command words level outer, .word text => some (.command (words ++ [text]) level outer)
  | .command words level outer, token => next (level.close (.command words)) outer token
  | .closed list outer, token => next list outer token
  | .ended list (level :: outer), .word text =>
    if text = "\x7d" then some (.closed (level.close (.group list)) outer) else none
  | .ended _ _, _ => none

/-- The list that has been read, if no group is open. -/
def list? : Reading → Option CommandList
  | .command words level [] => some (level.close (.command words))
  | .closed list [] => some list
  | _ => none

end Reading

/-- **Reads a text as a list of commands.** -/
def CommandList.read? (text : String) : Option CommandList := do
  let glyphs ← glyphs? text
  let tokens ← Token.ofGlyphs? [] glyphs
  let reading ← tokens.foldlM Reading.step (.start {} [])
  reading.list?

/-! ## Printing -/

mutual

/-- **The text of a list.** -/
def CommandList.print : CommandList → String
  | .item i => i.print
  | .join before op i => before.print ++ " " ++ op.token ++ " " ++ i.print

/-- The text of an item. -/
def Item.print : Item → String
  | .command words => joinWith " " words
  | .negated i => "! " ++ i.print
  | .group list => Emit.braced list.print

end

mutual

/-- The tokens of a list. -/
def CommandList.tokens : CommandList → List Token
  | .item i => i.tokens
  | .join before op i => before.tokens ++ .op op :: i.tokens

/-- The tokens of an item. -/
def Item.tokens : Item → List Token
  | .command words => words.map .word
  | .negated i => .word "!" :: i.tokens
  | .group list => .word "\x7b" :: list.tokens ++ [.semicolon, .word "\x7d"]

end

/-- The words a command may not begin with. -/
def reservedWords : List String := ["!", "\x7b", "\x7d"]

/-- **The words of a command**: there is at least one, and the first one
is not reserved. -/
structure IsCommand (words : List String) : Prop where
  /-- The first word begins a command. -/
  head : ∃ w ws, words = w :: ws ∧ w ∉ reservedWords
  /-- All of them are words. -/
  words : ∀ w ∈ words, IsWord w

mutual

/-- **A list whose commands consist of words.** -/
def CommandList.WellFormed : CommandList → Prop
  | .item i => i.WellFormed
  | .join before _ i => before.WellFormed ∧ i.WellFormed

/-- An item whose commands consist of words. -/
def Item.WellFormed : Item → Prop
  | .command words => IsCommand words
  | .negated i => i.WellFormed
  | .group list => list.WellFormed

end

/-! ## Texts and their tokens -/

/-- **Glyphs at which a word ends.** -/
def Ends (rest : List Glyph) (out : Option (List Token)) : Prop :=
  ∀ word, Token.ofGlyphs? word rest = out.map (Token.ending word)

/-- **A text that splits into tokens** wherever it is followed by the end
of a word. -/
def Splits (text : String) (tokens : List Token) : Prop :=
  ∃ gs, scan ⟨[], .plain⟩ text.toList = some (gs, ⟨[], .plain⟩)
    ∧ ∀ rest out, Ends rest out → Token.ofGlyphs? [] (gs ++ rest) = out.map (tokens ++ ·)

theorem ofGlyphs?_text (word cs : List Char) (rest : List Glyph) :
    Token.ofGlyphs? word (cs.map .text ++ rest) = Token.ofGlyphs? (word ++ cs) rest := by
  induction cs generalizing word with
  | nil => simp
  | cons c cs ih =>
    rw [List.map_cons, List.cons_append, Token.ofGlyphs?, ih, List.append_assoc]
    rfl

theorem splits_word {w : String} (h : IsWord w) : Splits w [.word w] := by
  refine ⟨w.toList.map .text, h.plain [] (by simp), fun rest out hrest => ?_⟩
  rw [ofGlyphs?_text, hrest]
  refine congrArg (out.map ·) (funext fun ts => ?_)
  simp [Token.ending, h.nonempty]

/-- **Two texts with a separator between them.** A word on the left ends
where the separator begins. -/
theorem Splits.between {s t separator : String} {ts us between : List Token} (gs : List Glyph)
    (hscan : scan ⟨[], .plain⟩ separator.toList = some (gs, ⟨[], .plain⟩))
    (hends : ∀ rest, Ends (gs ++ rest) ((Token.ofGlyphs? [] rest).map (between ++ ·)))
    (hs : Splits s ts) (ht : Splits t us) : Splits (s ++ separator ++ t) (ts ++ between ++ us) := by
  obtain ⟨left, hleft, hts⟩ := hs
  obtain ⟨right, hright, hus⟩ := ht
  refine ⟨left ++ gs ++ right, ?_, fun rest out hrest => ?_⟩
  · rw [String.toList_append, String.toList_append]
    exact scan_append (scan_append hleft hscan) hright
  · -- a word on the left is complete before the separator, so the right splits from scratch
    have hrest' := hends (right ++ rest)
    rw [hus rest out hrest, Option.map_map] at hrest'
    rw [List.append_assoc, List.append_assoc, hts _ _ hrest', Option.map_map]
    refine congrArg (out.map ·) (funext fun ts => ?_)
    simp

theorem Splits.blank {s t : String} {ts us : List Token} (hs : Splits s ts) (ht : Splits t us) :
    Splits (s ++ " " ++ t) (ts ++ us) := by
  have hall : Splits (s ++ " " ++ t) (ts ++ [] ++ us) := by
    refine .between [.blank] rfl (fun rest word => ?_) hs ht
    show (Token.ofGlyphs? [] rest).map _ = ((Token.ofGlyphs? [] rest).map _).map _
    rw [Option.map_map]
    rfl
  rwa [List.append_nil] at hall

theorem Splits.semicolon {s t : String} {ts us : List Token} (hs : Splits s ts)
    (ht : Splits t us) : Splits (s ++ "; " ++ t) (ts ++ [.semicolon] ++ us) := by
  refine .between [.semicolon, .blank] rfl (fun rest word => ?_) hs ht
  show ((Token.ofGlyphs? [] rest).map _).map _ = ((Token.ofGlyphs? [] rest).map _).map _
  rw [Option.map_map, Option.map_map]
  rfl

theorem Splits.op {s t : String} {ts us : List Token} (o : LogicalOp) (hs : Splits s ts)
    (ht : Splits t us) : Splits (s ++ (" " ++ o.token ++ " ") ++ t) (ts ++ [.op o] ++ us) := by
  cases o with
  | and =>
    refine .between [.blank, .ampersand, .ampersand, .blank] rfl (fun rest word => ?_) hs ht
    show (((Token.ofGlyphs? [] rest).map _).map _).map _ = ((Token.ofGlyphs? [] rest).map _).map _
    rw [Option.map_map, Option.map_map, Option.map_map]
    rfl
  | or =>
    refine .between [.blank, .bar, .bar, .blank] rfl (fun rest word => ?_) hs ht
    show (((Token.ofGlyphs? [] rest).map _).map _).map _ = ((Token.ofGlyphs? [] rest).map _).map _
    rw [Option.map_map, Option.map_map, Option.map_map]
    rfl

/-- The reserved words are words like others to the splitting. -/
theorem isWord_of_mem_reservedWords {w : String} (h : w ∈ reservedWords) : IsWord w := by
  have hordinary : ∀ w ∈ reservedWords, isOrdinary w = true := by decide
  exact isWord_of_isOrdinary (hordinary w h)

theorem splits_words {w : String} {ws : List String} (h : ∀ v ∈ w :: ws, IsWord v) :
    Splits (joinWith " " (w :: ws)) ((w :: ws).map .word) := by
  induction ws generalizing w with
  | nil => exact splits_word (h w List.mem_cons_self)
  | cons v ws ih =>
    rw [List.forall_mem_cons] at h
    exact (splits_word h.1).blank (ih h.2)

theorem braced_eq (text : String) :
    Emit.braced text = "\x7b" ++ " " ++ (text ++ "; " ++ "\x7d") := by
  have hend : text ++ "; " ++ "\x7d" = text ++ "; \x7d" := String.append_assoc ..
  rw [hend, Emit.braced, String.append_assoc]
  rfl

mutual

/-- **A printed list splits into its tokens.** -/
theorem CommandList.splits_print : (l : CommandList) → l.WellFormed → Splits l.print l.tokens
  | .item i, h => by
    rw [CommandList.print, CommandList.tokens]
    exact i.splits_print h
  | .join before op i, h => by
    have hall := (before.splits_print h.1).op op (i.splits_print h.2)
    rw [CommandList.print, CommandList.tokens]
    simpa [String.append_assoc] using hall

/-- A printed item splits into its tokens. -/
theorem Item.splits_print : (i : Item) → i.WellFormed → Splits i.print i.tokens
  | .command words, h => by
    obtain ⟨w, ws, rfl, -⟩ := h.head
    exact splits_words h.words
  | .negated i, h => by
    have hbang := isWord_of_mem_reservedWords (w := "!") (by decide)
    rw [Item.print, Item.tokens]
    exact (splits_word hbang).blank (i.splits_print h)
  | .group list, h => by
    have hopen := isWord_of_mem_reservedWords (w := "\x7b") (by decide)
    have hclose := isWord_of_mem_reservedWords (w := "\x7d") (by decide)
    have hall := (splits_word hopen).blank ((list.splits_print h).semicolon (splits_word hclose))
    rw [Item.print, Item.tokens, braced_eq]
    simpa using hall

end

/-! ## Reading what has been printed -/

/-- **A list is complete at its level**, be it that its last item is a
command or a group. -/
def Reading.IsDone (r : Reading) (list : CommandList) (outer : List Level) : Prop :=
  r = .closed list outer
    ∨ ∃ words level, r = .command words level outer ∧ list = level.close (.command words)

theorem Reading.IsDone.step_op {r : Reading} {list : CommandList} {outer : List Level}
    (h : r.IsDone list outer) (o : LogicalOp) :
    r.step (.op o) = some (.start { before := some (list, o) } outer) := by
  rcases h with rfl | ⟨words, level, rfl, rfl⟩ <;> rfl

theorem Reading.IsDone.step_semicolon {r : Reading} {list : CommandList} {outer : List Level}
    (h : r.IsDone list outer) : r.step .semicolon = some (.ended list outer) := by
  rcases h with rfl | ⟨words, level, rfl, rfl⟩ <;> rfl

theorem Reading.IsDone.list?_eq {r : Reading} {list : CommandList} (h : r.IsDone list []) :
    r.list? = some list := by
  rcases h with rfl | ⟨words, level, rfl, rfl⟩ <;> rfl

/-- A negation that has been read belongs to the next item. -/
theorem Level.close_negated (level : Level) (i : Item) :
    close { level with negations := level.negations + 1 } i = level.close (.negated i) := by
  obtain ⟨before, negations⟩ := level
  cases before <;> rfl

theorem Reading.step_start_word {w : String} (hw : w ∉ reservedWords) (level : Level)
    (outer : List Level) :
    (start level outer).step (.word w) = some (.command [w] level outer) := by
  simp only [reservedWords, List.mem_cons, List.not_mem_nil, or_false, not_or] at hw
  simp [step, hw]

theorem Reading.foldlM_command (words rest : List String) (level : Level) (outer : List Level) :
    (rest.map Token.word).foldlM step (.command words level outer)
      = some (.command (words ++ rest) level outer) := by
  induction rest generalizing words with
  | nil => simp
  | cons w rest ih =>
    rw [List.map_cons, List.foldlM_cons]
    refine (ih (words ++ [w])).trans ?_
    rw [List.append_assoc]
    rfl

mutual

/-- **The tokens of a list are read as the list**, at whatever level. -/
theorem CommandList.foldlM_tokens : (l : CommandList) → l.WellFormed → (outer : List Level) →
    ∃ r, l.tokens.foldlM Reading.step (.start {} outer) = some r ∧ r.IsDone l outer
  | .item i, h, outer => i.foldlM_tokens h {} outer
  | .join before op i, h, outer => by
    obtain ⟨r, hr, hdone⟩ := before.foldlM_tokens h.1 outer
    obtain ⟨r', hr', hdone'⟩ := i.foldlM_tokens h.2 { before := some (before, op) } outer
    refine ⟨r', ?_, hdone'⟩
    rw [CommandList.tokens, List.foldlM_append, hr]
    show (r.step (.op op)).bind _ = _
    rw [hdone.step_op op]
    exact hr'

/-- The tokens of an item are read as the item. -/
theorem Item.foldlM_tokens : (i : Item) → i.WellFormed → (level : Level) → (outer : List Level) →
    ∃ r, i.tokens.foldlM Reading.step (.start level outer) = some r
      ∧ r.IsDone (level.close i) outer
  | .command words, h, level, outer => by
    obtain ⟨w, ws, rfl, hw⟩ := h.head
    refine ⟨.command (w :: ws) level outer, ?_, .inr ⟨_, _, rfl, rfl⟩⟩
    rw [Item.tokens, List.map_cons, List.foldlM_cons, Reading.step_start_word hw]
    exact Reading.foldlM_command [w] ws level outer
  | .negated i, h, level, outer => by
    rw [← Level.close_negated]
    exact i.foldlM_tokens h _ outer
  | .group list, h, level, outer => by
    -- inside the braces the current level is one of the levels around
    obtain ⟨r, hr, hdone⟩ := list.foldlM_tokens h (level :: outer)
    refine ⟨.closed (level.close (.group list)) outer, ?_, .inl rfl⟩
    rw [Item.tokens, List.cons_append, List.foldlM_cons]
    show (list.tokens ++ [Token.semicolon, Token.word "\x7d"]).foldlM _
      (Reading.start {} (level :: outer)) = _
    rw [List.foldlM_append, hr]
    show (r.step .semicolon).bind _ = _
    rw [hdone.step_semicolon]
    rfl

end

/-- **A list that is printed is read back as it was.** -/
theorem CommandList.read?_print (l : CommandList) (h : l.WellFormed) : read? l.print = some l := by
  obtain ⟨gs, hscan, hgs⟩ := l.splits_print h
  obtain ⟨r, hr, hdone⟩ := l.foldlM_tokens h []
  have hglyphs : glyphs? l.print = some gs := by
    rw [glyphs?, hscan]
  have htokens : Token.ofGlyphs? [] gs = some l.tokens := by
    have hend := hgs [] (some []) fun word => rfl
    simpa using hend
  rw [read?, hglyphs]
  show (Token.ofGlyphs? [] gs).bind _ = _
  rw [htokens]
  show (l.tokens.foldlM Reading.step (.start {} [])).bind _ = _
  rw [hr]
  exact hdone.list?_eq

-- the two operators bind equally strong
example : CommandList.read? "a || ! b && c" =
    some (.join (.join (.item (.command ["a"])) .or (.negated (.command ["b"]))) .and
      (.command ["c"])) := by rfl

/-! ## Lists put together -/

namespace CommandList

/-- The operators of a list outside its groups. -/
def ops : CommandList → List LogicalOp
  | .item _ => []
  | .join before op _ => before.ops ++ [op]

/-- **A list behind another one**, without braces around either. -/
def append (l : CommandList) (op : LogicalOp) : CommandList → CommandList
  | .item i => .join l op i
  | .join before o i => .join (l.append op before) o i

theorem print_append (l r : CommandList) (op : LogicalOp) :
    (l.append op r).print = l.print ++ " " ++ op.token ++ " " ++ r.print :=
  match r with
  | .item i => by rw [append, print, print]
  | .join before o i => by
    rw [append, print, print, print_append l before op]
    simp only [String.append_assoc]

theorem wellFormed_append {l r : CommandList} (hl : l.WellFormed) (op : LogicalOp)
    (hr : r.WellFormed) : (l.append op r).WellFormed :=
  match r, hr with
  | .item _, hi => ⟨hl, hi⟩
  | .join _ _ _, h => ⟨wellFormed_append hl op h.1, h.2⟩

theorem ops_append (l r : CommandList) (op : LogicalOp) :
    (l.append op r).ops = l.ops ++ op :: r.ops :=
  match r with
  | .item i => rfl
  | .join before o i => by
    rw [append, ops, ops, ops_append l before op, List.append_assoc]
    rfl

/-- **A list runs behind another one as if it were grouped**, provided that
all its operators are the one that joins them. With another operator the
status of the first list would decide again later on. -/
theorem run_append {m : Type → Type} [Monad m] [LawfulMonad m] (exec : String → m Bool)
    (l r : CommandList) (op : LogicalOp) (h : ∀ o ∈ r.ops, o = op) :
    (l.append op r).run exec = op.chain (l.run exec) (r.run exec) :=
  match r with
  | .item i => by rw [append, run, run]
  | .join before o i => by
    rw [ops, List.forall_mem_append, List.forall_mem_singleton] at h
    obtain ⟨hbefore, rfl⟩ := h
    rw [append, run, run, run_append exec l before o hbefore, LogicalOp.chain_assoc]

/-- **A list that goes on with commands of which all have to succeed.** -/
def conjunction (l : CommandList) : List (List String) → CommandList
  | [] => l
  | words :: rest => conjunction (.join l .and (.command words)) rest

theorem wellFormed_conjunction {l : CommandList} {commands : List (List String)}
    (hl : l.WellFormed) (h : ∀ words ∈ commands, IsCommand words) :
    (l.conjunction commands).WellFormed := by
  induction commands generalizing l with
  | nil => exact hl
  | cons words rest ih =>
    rw [List.forall_mem_cons] at h
    exact ih ⟨hl, h.1⟩ h.2

theorem ops_conjunction {l : CommandList} (hl : ∀ o ∈ l.ops, o = .and)
    (commands : List (List String)) : ∀ o ∈ (l.conjunction commands).ops, o = .and := by
  induction commands generalizing l with
  | nil => exact hl
  | cons words rest ih =>
    refine ih ?_
    rw [ops, List.forall_mem_append, List.forall_mem_singleton]
    exact ⟨hl, rfl⟩

theorem run_conjunction {m : Type → Type} [Monad m] [LawfulMonad m] (exec : String → m Bool)
    (l : CommandList) (commands : List (List String)) :
    (l.conjunction commands).run exec
      = LogicalOp.and.chain (l.run exec) ((commands.map (joinWith " ")).allM exec) := by
  induction commands generalizing l with
  | nil => exact (LogicalOp.chain_pure_true _).symm
  | cons words rest ih =>
    rw [conjunction, ih, run, LogicalOp.chain_assoc, List.map_cons, LogicalOp.allM_cons]
    rfl

end CommandList

/-! ## Lists inside a substitution -/

theorem isNested_words {words : List String} (h : ∀ w ∈ words, IsWord w) :
    IsNested (joinWith " " words) := by
  match words with
  | [] => exact isNested_of_all (by decide)
  | [w] => exact (h w List.mem_cons_self).nested
  | w :: v :: ws =>
    rw [List.forall_mem_cons] at h
    exact (h.1.nested.append (isNested_of_all (by decide))).append (isNested_words h.2)

mutual

/-- **A printed list may stand inside a substitution.** -/
theorem CommandList.isNested_print : (l : CommandList) → l.WellFormed → IsNested l.print
  | .item i, h => i.isNested_print h
  | .join before op i, h => by
    have hop : IsNested (" " ++ op.token ++ " ") := isNested_of_all (by cases op <;> decide)
    have hall := ((before.isNested_print h.1).append hop).append (i.isNested_print h.2)
    rw [CommandList.print]
    simpa [String.append_assoc] using hall

/-- A printed item may stand inside a substitution. -/
theorem Item.isNested_print : (i : Item) → i.WellFormed → IsNested i.print
  | .command _, h => isNested_words h.words
  | .negated i, h => (isNested_of_all (by decide)).append (i.isNested_print h)
  | .group list, h =>
    ((isNested_of_all (by decide)).append (list.isNested_print h)).append
      (isNested_of_all (by decide))

end

end Shell

end ScriptToShell
