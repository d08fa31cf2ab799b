import ScriptToShell.Proofs.ExpressionNames

/-!
# The names that a line begins with

A line introduces a name only at its beginning. A call that prints several
values stands on several lines, but the lines behind the first one print
(`Continues`), and so only the first one could introduce a name. Whether it
does is seen from its first characters: what is assigned, defined or bound is
introduced, while a command, a test or a line of labels introduces nothing,
be the command called `local`.
-/

namespace ScriptToShell

open Emit

/-! ## Texts on several lines -/

namespace Shell

open Text

/-- **A text whose lines behind the first one print.** -/
structure Continues (text : String) : Prop where
  /-- Behind a line break there is a command that prints. -/
  echo : ∀ before behind, text.toList = before ++ '\n' :: behind → "echo ".toList <+: behind
  /-- There is no other kind of line end. -/
  noReturn : '\r' ∉ text.toList

section Continues

variable {s t : String}

theorem continues_of_not_mem (hbreak : '\n' ∉ t.toList) (hreturn : '\r' ∉ t.toList) :
    Continues t := by
  refine ⟨fun before behind htext => absurd ?_ hbreak, hreturn⟩
  rw [htext]
  simp

/-- A fixed text on one line. -/
theorem continues_of_all (t : String) (h : t.toList.all (fun c => c ≠ '\n' && c ≠ '\r') = true) :
    Continues t := by
  have hall := List.all_eq_true.1 h
  exact continues_of_not_mem (fun hmem => absurd (hall _ hmem) (by decide))
    fun hmem => absurd (hall _ hmem) (by decide)

theorem continues_of_isSpelled (h : IsSpelled t) : Continues t :=
  continues_of_not_mem (not_mem_of_isSpelled h (by decide)) (return_not_mem_of_isSpelled h)

theorem Continues.append (hs : Continues s) (ht : Continues t) : Continues (s ++ t) where
  echo before behind htext := by
    rw [String.toList_append] at htext
    rcases List.append_eq_append_iff.1 htext with ⟨as, -, ht'⟩ | ⟨bs, hs', hbehind⟩
    · exact ht.echo as behind ht'
    · cases bs with
      | nil => exact ht.echo [] behind hbehind.symm
      | cons b bs =>
        obtain ⟨rfl, rfl⟩ := List.cons.inj hbehind
        exact (hs.echo before bs hs').trans (List.prefix_append _ _)
  noReturn := by
    rw [String.toList_append, List.mem_append, not_or]
    exact ⟨hs.noReturn, ht.noReturn⟩

/-- A command that prints on a line of its own. -/
theorem Continues.append_break (hs : Continues s) (ht : Continues t)
    (hecho : "echo ".toList <+: t.toList) : Continues (s ++ "\n" ++ t) where
  echo before behind htext := by
    rw [String.append_assoc, String.toList_append] at htext
    rcases List.append_eq_append_iff.1 htext with ⟨as, -, ht'⟩ | ⟨bs, hs', hbehind⟩
    · cases as with
      | nil =>
        obtain ⟨-, rfl⟩ := List.cons.inj ((String.toList_append ..).symm.trans ht')
        exact hecho
      | cons a as =>
        obtain ⟨-, ht'⟩ := List.cons.inj ((String.toList_append ..).symm.trans ht')
        exact ht.echo as behind ht'
    · cases bs with
      | nil =>
        obtain ⟨-, rfl⟩ := List.cons.inj ((String.toList_append ..).symm.trans hbehind.symm)
        exact hecho
      | cons b bs =>
        obtain ⟨rfl, rfl⟩ := List.cons.inj hbehind
        exact (hs.echo before bs hs').trans (List.prefix_append _ _)
  noReturn := by
    simp only [String.toList_append, List.mem_append, not_or]
    exact ⟨⟨hs.noReturn, by decide⟩, ht.noReturn⟩

end Continues

/-- **The lines of a phrase behind the first one print**, rule by rule. -/
theorem Phrase.continues {use : Use} {text : String} (h : Phrase IsSpelled use text) :
    Continues text := by
  have hblank : Continues " " := continues_of_all " " (by decide)
  have hquote : Continues "\"" := continues_of_all "\"" (by decide)
  have hredirections : ∀ r ∈ redirections, Continues r := by
    intro r hr
    simp only [redirections, List.mem_cons, List.not_mem_nil, or_false] at hr
    rcases hr with rfl | rfl <;> exact continues_of_all _ (by decide)
  induction h with
  | reference h =>
    exact ((continues_of_all "\"$" (by decide)).append (continues_of_isSpelled h)).append hquote
  | quoted h =>
    have htext := continues_of_not_mem (fun hmem => h '\n' hmem (by decide))
      fun hmem => h '\r' hmem (by decide)
    exact (hquote.append htext).append hquote
  | scriptDir => exact continues_of_all _ (by decide)
  | scriptPath => exact continues_of_all _ (by decide)
  | arithmetic op _ _ ihl ihr =>
    have htoken := continues_of_all op.token (by cases op <;> decide)
    have hleft := ((continues_of_all "$(( " (by decide)).append ihl).append hblank
    exact (((hleft.append htoken).append hblank).append ihr).append
      (continues_of_all " ))" (by decide))
  | boolean _ ih =>
    exact ((continues_of_all "$( if " (by decide)).append ih).append
      (continues_of_all "; then printf true; else printf false; fi )" (by decide))
  | substitution _ ih =>
    exact ((continues_of_all "$(" (by decide)).append ih).append (continues_of_all ")" (by decide))
  | number h =>
    have hbare := Numeral.isBareChar_of_isBare h
    exact continues_of_not_mem (fun hmem => absurd (hbare _ hmem) (by decide))
      fun hmem => absurd (hbare _ hmem) (by decide)
  | word _ ih => exact ih
  | last _ ih => exact ih
  | more _ _ iha ihas => exact (iha.append hblank).append ihas
  | name h => exact continues_of_isSpelled h
  | call h _ ih => exact ((continues_of_isSpelled h).append hblank).append ih
  | echo h => exact (continues_of_all "echo" (by decide)).append (hredirections _ h)
  | prints _ ih => exact ih
  | line _ h ih =>
    exact ((continues_of_all "echo " (by decide)).append ih).append (hredirections _ h)
  | lines _ h ht ihv iht =>
    have hline := ((continues_of_all "echo " (by decide)).append ihv).append (hredirections _ h)
    exact hline.append_break iht ht.echo_prefix
  | comparison ho _ _ ihl ihr =>
    have hoperators : ∀ o ∈ testOperators,
        o.toList.all (fun c => c ≠ '\n' && c ≠ '\r') = true := by decide
    have hleft := ((continues_of_all "[ " (by decide)).append ihl).append hblank
    exact (((hleft.append (continues_of_all _ (hoperators _ ho))).append hblank).append ihr).append
      (continues_of_all " ]" (by decide))
  | nonzero _ ih =>
    exact ((continues_of_all "[ " (by decide)).append ih).append
      (continues_of_all " -ne 0 ]" (by decide))
  | truthy _ ih =>
    have hempty := ((continues_of_all "[ -n " (by decide)).append ih).append
      (continues_of_all " ] && [ " (by decide))
    have hfalse := (hempty.append ih).append (continues_of_all " != false ] && [ " (by decide))
    have hzero := (hfalse.append ih).append (continues_of_all " != 0 ] && [ " (by decide))
    exact (hzero.append ih).append (continues_of_all " != null ]" (by decide))
  | constant b => cases b <;> exact continues_of_all _ (by decide)
  | status _ ih => exact ih
  | logical op _ _ ihl ihr =>
    have htoken := continues_of_all op.token (by cases op <;> decide)
    exact (((ihl.append hblank).append htoken).append hblank).append ihr
  | negated _ ih => exact (continues_of_all "! " (by decide)).append ih
  | braced _ ih =>
    exact ((continues_of_all "\x7b " (by decide)).append ih).append
      (continues_of_all "; \x7d" (by decide))

/-! ## How a text begins -/

/-- The name that a text introduces with its first line. -/
def leading (text : String) : Option String := introduced? (text.toList.dropWhile isIndent)

/-- A fixed word. -/
theorem endsName_of_all (word : String) (h : word.toList.all (!endsName ·) = true) :
    ∀ c ∈ word.toList, endsName c = false := fun c hc => by
  simpa using List.all_eq_true.1 h c hc

theorem introduced?_of_echo {cs : List Char} (h : "echo ".toList <+: cs) :
    introduced? (cs.dropWhile isIndent) = none := by
  obtain ⟨rest, rfl⟩ := h
  exact introduced?_word (endsName_of_all "echo" (by decide)) (by decide) rest

/-- **The names in a text that continues**: the one that it begins with, and
those that are expanded. -/
theorem Continues.mem_namesIn {text : String} (h : Continues text) {name : String} :
    name ∈ namesIn text ↔ leading text = some name ∨ name ∈ expanded text.toList := by
  have hlines : ∀ cs : List Char,
      (∀ before behind, cs = before ++ '\n' :: behind → "echo ".toList <+: behind) →
      (name ∈ (pieces cs).flatMap namesOfLine
        ↔ introduced? (cs.dropWhile isIndent) = some name ∨ name ∈ expanded cs) := by
    -- by the length of the text, cutting it at its first break
    intro cs hecho
    induction hlen : cs.length using Nat.strongRecOn generalizing cs with
    | _ len ih =>
    subst hlen
    by_cases hmem : '\n' ∈ cs
    · obtain ⟨line, rest, rfl, hline⟩ := List.eq_append_cons_of_mem hmem
      have hrest := ih rest.length (by simp; omega) rest
        (fun before behind hbehind => hecho (line ++ '\n' :: before) behind (by simp [hbehind])) rfl
      rw [introduced?_of_echo (hecho line rest rfl)] at hrest
      rw [pieces_append_break, pieces_of_not_mem hline, List.flatMap_append, List.flatMap_singleton,
        List.mem_append, hrest, namesOfLine, List.mem_append, Option.mem_toList,
        dropWhile_isIndent_append_break, introduced?_append_break, expanded_append_break,
        List.mem_append]
      simp [or_assoc]
    · rw [pieces_of_not_mem hmem, List.flatMap_singleton, namesOfLine, List.mem_append,
        Option.mem_toList]
  exact hlines text.toList h.echo

/-- A name is not indented. -/
theorem dropWhile_isIndent_append {name : List Char} (hne : name ≠ [])
    (hname : ∀ c ∈ name, endsName c = false) (rest : List Char) :
    (name ++ rest).dropWhile isIndent = name ++ rest := by
  obtain ⟨c, cs, rfl⟩ := List.exists_cons_of_ne_nil hne
  refine List.dropWhile_cons_of_neg fun hindent => ?_
  have hends := hname c List.mem_cons_self
  rcases Bool.or_eq_true_iff.1 hindent with hblank | htab
  · cases of_decide_eq_true hblank
    cases hends
  · cases of_decide_eq_true htab
    cases hends

section Leading

variable {name text : String}

theorem leading_eq (h : IsSpelled name) (rest : List Char)
    (htext : text.toList = name.toList ++ rest) :
    leading text = introduced? (name.toList ++ rest) := by
  obtain ⟨d, ds, hname, -⟩ := exists_cons_of_isSpelled h
  have hne : name.toList ≠ [] := by
    rw [hname]
    exact List.cons_ne_nil d ds
  rw [leading, htext, dropWhile_isIndent_append hne (endsName_of_isSpelled h)]

theorem leading_assignment (h : IsSpelled name) (value : String) :
    leading (name ++ "=" ++ value) = some name := by
  have hends : endsName '=' = true := by decide
  rw [leading_eq h ('=' :: value.toList) (by simp),
    introduced?_append_cons (endsName_of_isSpelled h) hends, if_pos (.inl rfl),
    String.ofList_toList]

theorem leading_definition (h : IsSpelled name) : leading (name ++ "() \x7b") = some name := by
  have hends : endsName '(' = true := by decide
  rw [leading_eq h ['(', ')', ' ', '\x7b'] (by simp),
    introduced?_append_cons (endsName_of_isSpelled h) hends, if_pos (.inr List.prefix_rfl),
    String.ofList_toList]

theorem leading_binding (h : IsSpelled name) (value : String) :
    leading ("local " ++ name ++ "=" ++ value) = some name := by
  have hspelled := endsName_of_isSpelled h
  have hends : endsName '=' = true := by decide
  have htext : ("local " ++ name ++ "=" ++ value).toList
      = "local".toList ++ ' ' :: (name.toList ++ '=' :: value.toList) := by simp
  have hlocal := endsName_of_all "local" (by decide)
  rw [leading, htext, dropWhile_isIndent_append (by decide) hlocal,
    introduced?_append_cons hlocal (by decide), if_neg (by simp), if_pos,
    nameAt_append_cons hspelled hends, String.ofList_toList]
  rw [behindName_append_cons hspelled hends]
  exact ⟨rfl, rfl, rfl⟩

/-- A text that begins with a word other than `local` and a blank introduces
no name. -/
theorem leading_of_word (word : String)
    (hword : (word ≠ "" && word ≠ "local" && word.toList.all (!endsName ·)) = true)
    (h : ∃ rest, text.toList = word.toList ++ ' ' :: rest) : leading text = none := by
  obtain ⟨rest, hrest⟩ := h
  simp only [Bool.and_eq_true, decide_eq_true_eq, ne_eq] at hword
  obtain ⟨⟨hne, hlocal⟩, hends⟩ := hword
  have hname := endsName_of_all word hends
  rw [leading, hrest, dropWhile_isIndent_append (mt String.toList_eq_nil_iff.1 hne) hname,
    introduced?_word hname (mt String.toList_inj.1 hlocal)]

end Leading

/-- How a value begins: with a quote, or with a substitution. -/
def BeginsValue (cs : List Char) : Prop :=
  (∃ rest, cs = '"' :: rest) ∨ ∃ c rest, cs = '$' :: '(' :: c :: rest ∧ c ≠ ')'

theorem Phrase.command_begins {t : String} (h : Phrase IsSpelled .command t) :
    ∃ c cs, t.toList = c :: cs ∧ c ≠ ')' := by
  have hname : ∀ name rest : String, IsSpelled name →
      ∃ c cs, (name ++ rest).toList = c :: cs ∧ c ≠ ')' := by
    intro name rest h
    obtain ⟨c, cs, hcs, -, hends⟩ := exists_cons_of_isSpelled h
    refine ⟨c, cs ++ rest.toList, by simp [hcs], ?_⟩
    rintro rfl
    cases hends
  cases h with
  | name h =>
    rw [← String.append_empty (s := t)]
    exact hname t "" h
  | call h _ =>
    rw [String.append_assoc]
    exact hname _ _ h
  | echo h => exact ⟨'e', _, by rw [String.toList_append]; rfl, by decide⟩
  | prints h =>
    obtain ⟨rest, hrest⟩ := h.echo_prefix
    exact ⟨'e', _, hrest.symm, by decide⟩

theorem Phrase.value_begins {v : String} (h : Phrase IsSpelled .value v) :
    BeginsValue v.toList := by
  cases h with
  | reference h => exact .inl ⟨_, by simp only [String.toList_append]; rfl⟩
  | quoted h => exact .inl ⟨_, by simp only [String.toList_append]; rfl⟩
  | scriptDir => exact .inr ⟨'d', _, rfl, by decide⟩
  | scriptPath => exact .inr ⟨'r', _, rfl, by decide⟩
  | arithmetic op _ _ => exact .inr ⟨'(', _, by simp only [String.toList_append]; rfl, by decide⟩
  | boolean _ =>
    exact .inr ⟨' ', _, by simp only [booleanWord, String.toList_append]; rfl, by decide⟩
  | substitution h =>
    obtain ⟨c, cs, hcs, hc⟩ := h.command_begins
    exact .inr ⟨c, cs ++ [')'], by simp [hcs], hc⟩

theorem endsName_of_isBareChar {c : Char} (h : Numeral.IsBareChar c) : endsName c = false := by
  have hnone : [' ', '\t', '\n', '"', '=', '(', ')'].all (¬ Numeral.IsBareChar ·) = true := by
    decide
  refine Bool.eq_false_iff.2 fun hends => ?_
  exact of_decide_eq_true (List.all_eq_true.1 hnone c (List.contains_iff_mem.1 hends)) h

/-- No argument is an assignment. -/
theorem Phrase.argument_begins {a : String} (h : Phrase IsSpelled .argument a) {rest : List Char}
    (hrest : ∀ c ∈ rest.head?, c = ' ') : (behindName (a.toList ++ rest)).head? ≠ some '=' := by
  cases h with
  | number h =>
    have hname : ∀ c ∈ a.toList, endsName c = false := fun c hc =>
      endsName_of_isBareChar (Numeral.isBareChar_of_isBare h c hc)
    cases rest with
    | nil =>
      rw [List.append_nil, behindName_of_forall hname]
      simp
    | cons c rest =>
      cases hrest c rfl
      rw [behindName_append_cons hname (by decide)]
      simp
  | word h =>
    rcases h.value_begins with ⟨more, hmore⟩ | ⟨c, more, hmore, -⟩
    · rw [hmore]
      show some '"' ≠ some '='
      simp
    · rw [hmore]
      show some '(' ≠ some '='
      simp

theorem Phrase.arguments_begin {as : String} (h : Phrase IsSpelled .arguments as) :
    (behindName as.toList).head? ≠ some '=' := by
  cases h with
  | last h =>
    rw [← List.append_nil as.toList]
    exact h.argument_begins nofun
  | more h _ =>
    rw [String.append_assoc, String.toList_append]
    exact h.argument_begins (by simp)

/-- **A command introduces no name**, whatever it is called. -/
theorem Phrase.leading_command {t : String} (h : Phrase IsSpelled .command t) :
    leading t = none := by
  cases h with
  | name h =>
    rw [leading_eq h [] (List.append_nil _).symm, List.append_nil,
      introduced?_of_forall (endsName_of_isSpelled h)]
  | @call name as h has =>
    rw [leading_eq h (' ' :: as.toList) (by simp),
      introduced?_append_cons (endsName_of_isSpelled h) (by decide), if_neg (by simp), if_neg]
    exact fun hbinds => has.arguments_begin hbinds.2.2
  | echo h =>
    have hecho : ∀ r ∈ redirections, leading ("echo" ++ r) = none := by decide
    exact hecho _ h
  | prints h => exact introduced?_of_echo h.echo_prefix

/-- What stands behind the first name of a line of labels. -/
def EndsLabel (rest : List Char) : Prop :=
  rest = [')'] ∨ (∃ more, rest = '"' :: more) ∨ ∃ c more, rest = '(' :: c :: more ∧ c ≠ ')'

theorem endsLabel_labels {labels : List String} (hne : labels ≠ [])
    (h : ∀ label ∈ labels, label = "*" ∨ Phrase IsSpelled .value label) :
    EndsLabel (behindName (joinWith "|" labels ++ ")").toList) := by
  have hvalue : ∀ v rest : String, Phrase IsSpelled .value v →
      EndsLabel (behindName (v ++ rest).toList) := by
    intro v rest h
    rw [String.toList_append]
    rcases h.value_begins with ⟨more, hmore⟩ | ⟨c, more, hmore, hc⟩
    · rw [hmore]
      exact .inr (.inl ⟨more ++ rest.toList, rfl⟩)
    · rw [hmore]
      exact .inr (.inr ⟨c, more ++ rest.toList, rfl, hc⟩)
  induction labels with
  | nil => exact absurd rfl hne
  | cons label labels ih =>
    rw [List.forall_mem_cons] at h
    cases labels with
    | nil =>
      rcases h.1 with rfl | hphrase
      · exact .inl (by decide)
      · exact hvalue label ")" hphrase
    | cons label' labels =>
      show EndsLabel (behindName (label ++ "|" ++ joinWith "|" (label' :: labels) ++ ")").toList)
      rcases h.1 with rfl | hphrase
      · have hrest := ih (List.cons_ne_nil _ _) h.2
        rw [String.append_assoc, String.toList_append]
        exact hrest
      · rw [String.append_assoc, String.append_assoc]
        exact hvalue label _ hphrase

/-- **A line of labels introduces no name.** -/
theorem leading_labels {labels : List String} (hne : labels ≠ [])
    (h : ∀ label ∈ labels, label = "*" ∨ Phrase IsSpelled .value label) :
    leading (joinWith "|" labels ++ ")") = none := by
  have hends := endsLabel_labels hne h
  unfold leading
  generalize (joinWith "|" labels ++ ")").toList = cs at hends
  have hindent : cs.dropWhile isIndent = cs := by
    cases cs with
    | nil => rfl
    | cons c cs =>
      refine List.dropWhile_cons_of_neg fun hindent => ?_
      -- a blank would end the name before it, and no label ends so
      have hblank : endsName c = true := by
        rcases Bool.or_eq_true_iff.1 hindent with hblank | htab
        · rw [of_decide_eq_true hblank]
          rfl
        · rw [of_decide_eq_true htab]
          rfl
      rw [behindName, List.dropWhile_cons_of_neg (by simp [hblank])] at hends
      rcases hends with heq | ⟨more, heq⟩ | ⟨d, more, heq, -⟩
      all_goals
        cases heq
        cases hindent
  rw [hindent]
  unfold introduced?
  rcases hends with heq | ⟨more, heq⟩ | ⟨d, more, heq, hd⟩
  · simp [heq]
  · simp [heq]
  · simp [heq, Ne.symm hd]

end Shell

end ScriptToShell
