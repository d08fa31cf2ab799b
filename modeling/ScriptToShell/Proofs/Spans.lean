import ScriptToShell.Tree.Strip
import ScriptToShell.Proofs.Parallel

/-!
# Spans do not matter to a script

The spans of a program say where its nodes stand in the text it was read
from, and serve to show a fault under its place. They are never written:
this module shows that a program becomes the same chunks whatever its spans
are, or fails with the same fault but for the place it points at.

Programs that differ in their spans only are those that are `Alike` with
nothing asked of the spans. `stripSpans` picks one of them: the program with
the same nodes whose spans are all `0..0` (`Program.alike_stripped_iff`).
So programs with one stripped form are those that differ in their spans
only, and their runs go side by side.
-/

namespace ScriptToShell

/-! ## Likeness with every span forgotten -/

/-- Spans about which nothing is asked. -/
abbrev Placing.free : Placing := fun _ _ _ => True

/-- Spans of which the second is `0..0`. -/
abbrev Placing.forgotten : Placing := fun _ _ s' => s' = .nowhere

theorem Expr.stripSpansAll_eq_map (es : List Expr) :
    Expr.stripSpansAll es = es.map Expr.stripSpans := by
  induction es with
  | nil => rfl
  | cons e es ih => rw [Expr.stripSpansAll, ih, List.map_cons]

theorem Stmt.stripSpansAll_eq_map (ss : List Stmt) :
    Stmt.stripSpansAll ss = ss.map Stmt.stripSpans := by
  induction ss with
  | nil => rfl
  | cons s ss ih => rw [Stmt.stripSpansAll, ih, List.map_cons]

theorem SwitchCase.stripSpansAll_eq_map (cs : List SwitchCase) :
    SwitchCase.stripSpansAll cs = cs.map SwitchCase.stripSpans := by
  induction cs with
  | nil => rfl
  | cons c cs ih => rw [SwitchCase.stripSpansAll, ih, List.map_cons]

theorem Stmt.stripSpans_branch (test : Expr) (consequent : Stmt) (alternate : Option Stmt)
    (span : Span) : (Stmt.branch test consequent alternate span).stripSpans
      = .branch test.stripSpans consequent.stripSpans (alternate.map Stmt.stripSpans) .nowhere := by
  cases alternate with
  | none => rw [Stmt.stripSpans, Option.map_none]
  | some s => rw [Stmt.stripSpans, Option.map_some]

section Collections

variable {α β γ : Type} {R : α → β → Prop} {f : α → β}

theorem eq_map_of_forall₂ {as : List α} {bs : List β} (h : List.Forall₂ R as bs)
    (heq : ∀ a ∈ as, ∀ b, R a b → b = f a) : bs = as.map f := by
  have hmap : List.Forall₂ (fun a b => f a = b) as bs :=
    forall₂_of_mem h fun a ha b hab => (heq a ha b hab).symm
  rw [← List.forall₂_map_left_iff, List.forall₂_eq_eq_eq] at hmap
  exact hmap.symm

theorem forall₂_map {as : List α} (h : ∀ a ∈ as, R a (f a)) : List.Forall₂ R as (as.map f) :=
  List.forall₂_map_right_iff.2 (List.forall₂_same.2 h)

theorem eq_map_of_rel {a : Option α} {b : Option β} (h : Option.Rel R a b)
    (heq : ∀ x ∈ a, ∀ y, R x y → y = f x) : b = a.map f := by
  cases h with
  | none => rfl
  | some hxy => rw [heq _ rfl _ hxy, Option.map_some]

theorem rel_map {a : Option α} (h : ∀ x ∈ a, R x (f x)) : Option.Rel R a (a.map f) := by
  cases a with
  | none => exact .none
  | some x => exact .some (h x rfl)

variable {P : α → γ → Prop} {Q : β → γ → Prop} {S : α → β → Prop}

/-- Lists that are both related to a third one, element by element. -/
theorem forall₂_meet {as : List α} {bs : List β} {cs : List γ} (hP : List.Forall₂ P as cs)
    (hQ : List.Forall₂ Q bs cs) (h : ∀ a ∈ as, ∀ b c, P a c → Q b c → S a b) :
    List.Forall₂ S as bs := by
  induction hP generalizing bs with
  | nil =>
    cases hQ
    exact .nil
  | cons hac _ ih =>
    rw [List.forall_mem_cons] at h
    cases hQ with
    | cons hbc hrest => exact .cons (h.1 _ _ hac hbc) (ih hrest h.2)

theorem rel_meet {a : Option α} {b : Option β} {c : Option γ} (hP : Option.Rel P a c)
    (hQ : Option.Rel Q b c) (h : ∀ x ∈ a, ∀ y z, P x z → Q y z → S x y) : Option.Rel S a b := by
  cases hP with
  | none =>
    cases hQ
    exact .none
  | some hxz =>
    cases hQ with
    | some hyz => exact .some (h _ rfl _ _ hxz hyz)

end Collections

/-! ## The stripped form is the one with every span forgotten -/

namespace Expr

theorem alike_stripSpans (e : Expr) : e.Alike .forgotten e.stripSpans := by
  induction e using Expr.induction_on with
  | identifier name span => exact .identifier rfl
  | literal value span => exact .literal rfl
  | binary op left right span ihl ihr => exact .binary ihl ihr rfl
  | logical op left right span ihl ihr => exact .logical ihl ihr rfl
  | not argument span ih => exact .not ih rfl
  | call callee arguments span ihc iha =>
    rw [stripSpans, stripSpansAll_eq_map]
    exact .call ihc (forall₂_map iha) rfl
  | member object property span ih => exact .member ih rfl
  | metaProperty owner property span => exact .metaProperty rfl
  | unsupported kind span => exact .unsupported rfl

theorem Alike.eq_stripSpans {e x : Expr} (h : e.Alike .forgotten x) : x = e.stripSpans := by
  induction e using Expr.induction_on generalizing x with
  | identifier name span =>
    cases h with
    | identifier hs => rw [stripSpans, hs]
  | literal value span =>
    cases h with
    | literal hs => rw [stripSpans, hs]
  | binary op left right span ihl ihr =>
    cases h with
    | binary hleft hright hs => rw [stripSpans, ihl hleft, ihr hright, hs]
  | logical op left right span ihl ihr =>
    cases h with
    | logical hleft hright hs => rw [stripSpans, ihl hleft, ihr hright, hs]
  | not argument span ih =>
    cases h with
    | not hargument hs => rw [stripSpans, ih hargument, hs]
  | call callee arguments span ihc iha =>
    cases h with
    | call hcallee harguments hs =>
      rw [stripSpans, stripSpansAll_eq_map, ihc hcallee, hs,
        eq_map_of_forall₂ harguments fun e he _ halike => iha e he halike]
  | member object property span ih =>
    cases h with
    | member hobject hs => rw [stripSpans, ih hobject, hs]
  | metaProperty owner property span =>
    cases h with
    | metaProperty hs => rw [stripSpans, hs]
  | unsupported kind span =>
    cases h with
    | unsupported hs => rw [stripSpans, hs]

end Expr

theorem Pattern.alike_stripSpans (p : Pattern) : p.Alike .forgotten p.stripSpans := by
  cases p with
  | identifier name span => exact .identifier rfl
  | unsupported kind span => exact .unsupported rfl

theorem Pattern.Alike.eq_stripSpans {p x : Pattern} (h : p.Alike .forgotten x) :
    x = p.stripSpans := by
  cases h with
  | identifier hs => rw [Pattern.stripSpans, hs]
  | unsupported hs => rw [Pattern.stripSpans, hs]

theorem Declarator.alike_stripSpans (d : Declarator) : d.Alike .forgotten d.stripSpans :=
  ⟨d.target.alike_stripSpans, rel_map fun e _ => e.alike_stripSpans, rfl⟩

theorem Declarator.Alike.eq_stripSpans {d x : Declarator} (h : d.Alike .forgotten x) :
    x = d.stripSpans := by
  obtain ⟨target, init, span⟩ := x
  obtain ⟨htarget, hinit, hs⟩ := h
  have hinit : init = d.init.map Expr.stripSpans :=
    eq_map_of_rel hinit fun _ _ _ he => he.eq_stripSpans
  exact congr (congr (congrArg Declarator.mk htarget.eq_stripSpans) hinit) hs

namespace Stmt

theorem alike_stripSpans (s : Stmt) : s.Alike .forgotten s.stripSpans := by
  induction s using Stmt.induction_on with
  | block body span ih =>
    rw [stripSpans, stripSpansAll_eq_map]
    exact .block (forall₂_map ih) rfl
  | empty span => exact .empty rfl
  | expression value span => exact .expression value.alike_stripSpans rfl
  | branch test consequent alternate span ihc iha =>
    rw [stripSpans_branch]
    exact .branch test.alike_stripSpans ihc (rel_map iha) rfl
  | function name params body span ih =>
    rw [stripSpans, stripSpansAll_eq_map]
    exact .function (forall₂_map fun p _ => p.alike_stripSpans) (forall₂_map ih) rfl
  | ret argument span => exact .ret (rel_map fun e _ => e.alike_stripSpans) rfl
  | declaration kind declarators span =>
    exact .declaration (forall₂_map fun d _ => d.alike_stripSpans) rfl
  | switch discriminant cases span ih =>
    rw [stripSpans, SwitchCase.stripSpansAll_eq_map]
    refine .switch discriminant.alike_stripSpans (forall₂_map fun c hc => ?_) rfl
    have ihc := ih c hc
    obtain ⟨test, consequent, s⟩ := c
    rw [SwitchCase.stripSpans, stripSpansAll_eq_map]
    exact .mk (rel_map fun e _ => e.alike_stripSpans) (forall₂_map ihc) rfl
  | importModule source span => exact .importModule rfl
  | exit span => exact .exit rfl
  | unsupported kind span => exact .unsupported rfl

theorem Alike.eq_stripSpans {s x : Stmt} (h : s.Alike .forgotten x) : x = s.stripSpans := by
  induction s using Stmt.induction_on generalizing x with
  | block body span ih =>
    cases h with
    | block hbody hs =>
      rw [stripSpans, stripSpansAll_eq_map, hs,
        eq_map_of_forall₂ hbody fun s hmem _ halike => ih s hmem halike]
  | empty span =>
    cases h with
    | empty hs => rw [stripSpans, hs]
  | expression value span =>
    cases h with
    | expression hvalue hs => rw [stripSpans, hvalue.eq_stripSpans, hs]
  | branch test consequent alternate span ihc iha =>
    cases h with
    | branch htest hconsequent halternate hs =>
      rw [stripSpans_branch, htest.eq_stripSpans, ihc hconsequent, hs,
        eq_map_of_rel halternate fun s hmem _ halike => iha s hmem halike]
  | function name params body span ih =>
    cases h with
    | function hparams hbody hs =>
      rw [stripSpans, stripSpansAll_eq_map, hs,
        eq_map_of_forall₂ hparams fun _ _ _ halike => halike.eq_stripSpans,
        eq_map_of_forall₂ hbody fun s hmem _ halike => ih s hmem halike]
  | ret argument span =>
    cases h with
    | ret hargument hs =>
      rw [stripSpans, hs, eq_map_of_rel hargument fun _ _ _ halike => halike.eq_stripSpans]
  | declaration kind declarators span =>
    cases h with
    | declaration hdeclarators hs =>
      rw [stripSpans, hs,
        eq_map_of_forall₂ hdeclarators fun _ _ _ halike => halike.eq_stripSpans]
  | switch discriminant cases span ih =>
    cases h with
    | switch hdiscriminant hcases hs =>
      rw [stripSpans, SwitchCase.stripSpansAll_eq_map, hdiscriminant.eq_stripSpans, hs]
      refine congrArg (Stmt.switch _ · _) (eq_map_of_forall₂ hcases fun c hc x halike => ?_)
      have ihc := ih c hc
      cases halike with
      | mk htest hconsequent hs =>
        rw [SwitchCase.stripSpans, stripSpansAll_eq_map, hs,
          eq_map_of_rel htest fun _ _ _ halike => halike.eq_stripSpans,
          eq_map_of_forall₂ hconsequent fun s hmem _ halike => ihc s hmem halike]
  | importModule source span =>
    cases h with
    | importModule hs => rw [stripSpans, hs]
  | exit span =>
    cases h with
    | exit hs => rw [stripSpans, hs]
  | unsupported kind span =>
    cases h with
    | unsupported hs => rw [stripSpans, hs]

end Stmt

/-- **The stripped form of a program** is the one program with the same
nodes in which every span is `0..0`. -/
theorem Program.alike_stripped_iff (p x : Program) :
    p.Alike .forgotten x ↔ x = p.stripSpans := by
  constructor
  · intro h
    obtain ⟨body, span⟩ := x
    obtain ⟨hbody, hs⟩ := h
    have hbody : body = p.body.map Stmt.stripSpans :=
      eq_map_of_forall₂ hbody fun _ _ _ halike => halike.eq_stripSpans
    rw [Program.stripSpans, Stmt.stripSpansAll_eq_map, hbody, show span = .nowhere from hs]
  · rintro rfl
    rw [Program.stripSpans, Stmt.stripSpansAll_eq_map]
    exact ⟨forall₂_map fun s _ => s.alike_stripSpans, rfl⟩

/-! ## Likeness through a third program -/

section Meet

variable {r r' q : Placing} (hq : ∀ tag s s' c, r tag s c → r' tag s' c → q tag s s')
include hq

theorem Expr.Alike.meet {e e' x : Expr} (h : e.Alike r x) (h' : e'.Alike r' x) : e.Alike q e' := by
  induction e using Expr.induction_on generalizing e' x with
  | identifier name span =>
    cases h with
    | identifier hs =>
      cases h' with
      | identifier hs' => exact .identifier (hq _ _ _ _ hs hs')
  | literal value span =>
    cases h with
    | literal hs =>
      cases h' with
      | literal hs' => exact .literal (hq _ _ _ _ hs hs')
  | binary op left right span ihl ihr =>
    cases h with
    | binary hleft hright hs =>
      cases h' with
      | binary hleft' hright' hs' =>
        exact .binary (ihl hleft hleft') (ihr hright hright') (hq _ _ _ _ hs hs')
  | logical op left right span ihl ihr =>
    cases h with
    | logical hleft hright hs =>
      cases h' with
      | logical hleft' hright' hs' =>
        exact .logical (ihl hleft hleft') (ihr hright hright') (hq _ _ _ _ hs hs')
  | not argument span ih =>
    cases h with
    | not hargument hs =>
      cases h' with
      | not hargument' hs' => exact .not (ih hargument hargument') (hq _ _ _ _ hs hs')
  | call callee arguments span ihc iha =>
    cases h with
    | call hcallee harguments hs =>
      cases h' with
      | call hcallee' harguments' hs' =>
        exact .call (ihc hcallee hcallee')
          (forall₂_meet harguments harguments' fun e he _ _ => iha e he) (hq _ _ _ _ hs hs')
  | member object property span ih =>
    cases h with
    | member hobject hs =>
      cases h' with
      | member hobject' hs' => exact .member (ih hobject hobject') (hq _ _ _ _ hs hs')
  | metaProperty owner property span =>
    cases h with
    | metaProperty hs =>
      cases h' with
      | metaProperty hs' => exact .metaProperty (hq _ _ _ _ hs hs')
  | unsupported kind span =>
    cases h with
    | unsupported hs =>
      cases h' with
      | unsupported hs' => exact .unsupported (hq _ _ _ _ hs hs')

theorem Expr.meet? {e e' x : Option Expr} (h : Option.Rel (Expr.Alike r) e x)
    (h' : Option.Rel (Expr.Alike r') e' x) : Option.Rel (Expr.Alike q) e e' :=
  rel_meet h h' fun _ _ _ _ => Expr.Alike.meet hq

theorem Pattern.Alike.meet {p p' x : Pattern} (h : p.Alike r x) (h' : p'.Alike r' x) :
    p.Alike q p' := by
  cases h with
  | identifier hs =>
    cases h' with
    | identifier hs' => exact .identifier (hq _ _ _ _ hs hs')
  | unsupported hs =>
    cases h' with
    | unsupported hs' => exact .unsupported (hq _ _ _ _ hs hs')

theorem Declarator.Alike.meet {d d' x : Declarator} (h : d.Alike r x) (h' : d'.Alike r' x) :
    d.Alike q d' :=
  ⟨h.target.meet hq h'.target, Expr.meet? hq h.init h'.init, hq _ _ _ _ h.span h'.span⟩

theorem Stmt.Alike.meet {s s' x : Stmt} (h : s.Alike r x) (h' : s'.Alike r' x) : s.Alike q s' := by
  induction s using Stmt.induction_on generalizing s' x with
  | block body span ih =>
    cases h with
    | block hbody hs =>
      cases h' with
      | block hbody' hs' =>
        exact .block (forall₂_meet hbody hbody' fun s hmem _ _ => ih s hmem) (hq _ _ _ _ hs hs')
  | empty span =>
    cases h with
    | empty hs =>
      cases h' with
      | empty hs' => exact .empty (hq _ _ _ _ hs hs')
  | expression value span =>
    cases h with
    | expression hvalue hs =>
      cases h' with
      | expression hvalue' hs' => exact .expression (hvalue.meet hq hvalue') (hq _ _ _ _ hs hs')
  | branch test consequent alternate span ihc iha =>
    cases h with
    | branch htest hconsequent halternate hs =>
      cases h' with
      | branch htest' hconsequent' halternate' hs' =>
        exact .branch (htest.meet hq htest') (ihc hconsequent hconsequent')
          (rel_meet halternate halternate' fun s hmem _ _ => iha s hmem) (hq _ _ _ _ hs hs')
  | function name params body span ih =>
    cases h with
    | function hparams hbody hs =>
      cases h' with
      | function hparams' hbody' hs' =>
        exact .function (forall₂_meet hparams hparams' fun _ _ _ _ => Pattern.Alike.meet hq)
          (forall₂_meet hbody hbody' fun s hmem _ _ => ih s hmem) (hq _ _ _ _ hs hs')
  | ret argument span =>
    cases h with
    | ret hargument hs =>
      cases h' with
      | ret hargument' hs' => exact .ret (Expr.meet? hq hargument hargument') (hq _ _ _ _ hs hs')
  | declaration kind declarators span =>
    cases h with
    | declaration hdeclarators hs =>
      cases h' with
      | declaration hdeclarators' hs' =>
        exact .declaration
          (forall₂_meet hdeclarators hdeclarators' fun _ _ _ _ => Declarator.Alike.meet hq)
          (hq _ _ _ _ hs hs')
  | switch discriminant cases span ih =>
    cases h with
    | switch hdiscriminant hcases hs =>
      cases h' with
      | switch hdiscriminant' hcases' hs' =>
        refine .switch (hdiscriminant.meet hq hdiscriminant')
          (forall₂_meet hcases hcases' fun c hc c' y hcy hcy' => ?_) (hq _ _ _ _ hs hs')
        have ihc := ih c hc
        cases hcy with
        | mk htest hconsequent hs =>
          cases hcy' with
          | mk htest' hconsequent' hs' =>
            exact .mk (Expr.meet? hq htest htest')
              (forall₂_meet hconsequent hconsequent' fun s hmem _ _ => ihc s hmem)
              (hq _ _ _ _ hs hs')
  | importModule source span =>
    cases h with
    | importModule hs =>
      cases h' with
      | importModule hs' => exact .importModule (hq _ _ _ _ hs hs')
  | exit span =>
    cases h with
    | exit hs =>
      cases h' with
      | exit hs' => exact .exit (hq _ _ _ _ hs hs')
  | unsupported kind span =>
    cases h with
    | unsupported hs =>
      cases h' with
      | unsupported hs' => exact .unsupported (hq _ _ _ _ hs hs')

/-- **Programs that are alike a third one** are alike. -/
theorem Program.Alike.meet {p p' x : Program} (h : p.Alike r x) (h' : p'.Alike r' x) :
    p.Alike q p' :=
  ⟨forall₂_meet h.body h'.body fun _ _ _ _ => Stmt.Alike.meet hq, hq _ _ _ _ h.span h'.span⟩

end Meet

/-- **Programs with one stripped form** differ in their spans only, and
the other way round. -/
theorem Program.stripSpans_eq_iff (p q : Program) :
    p.stripSpans = q.stripSpans ↔ p.Alike .free q := by
  have hq : q.Alike .forgotten q.stripSpans := (q.alike_stripped_iff _).2 rfl
  constructor
  · intro heq
    exact ((p.alike_stripped_iff _).2 heq.symm).meet (fun _ _ _ _ _ _ => trivial) hq
  · intro halike
    -- Seen from the stripped form of `q`, the program `q` is one that it is alike.
    have hself : q.stripSpans.Alike (fun _ s s' => s = s') q.stripSpans :=
      Program.alike_self (fun _ => rfl) fun _ _ _ _ _ _ _ _ => rfl
    have hback : q.stripSpans.Alike (fun _ s _ => s = .nowhere) q :=
      hself.meet (fun _ _ _ _ hs hs' => hs.trans hs') hq
    have hmeet : ∀ tag s s' c, Placing.free tag s c → s' = .nowhere → Placing.forgotten tag s s' :=
      fun _ _ _ _ _ hs => hs
    have hp : p.Alike .forgotten q.stripSpans := halike.meet hmeet hback
    exact ((p.alike_stripped_iff _).1 hp).symm

/-! ## Faults without their place -/

namespace Fault

/-- A fault with its place forgotten. Whether it has one is kept. -/
def unplaced : Fault → Fault
  | .malformed message line column _ => .malformed message line column .nowhere
  | .unsupported kind detail span => .unsupported kind detail (span.map fun _ => .nowhere)
  | .invalidOperator op target _ => .invalidOperator op target .nowhere
  | fault => fault

end Fault

/-- **Outcomes that agree but for places**: the same value, or faults that
differ in the place they point at only. -/
def AgreeButForPlaces (α : Type) (x y : Except Fault α) : Prop :=
  (∃ a, x = .ok a ∧ y = .ok a) ∨ ∃ f g, x = .error f ∧ y = .error g ∧ f.unplaced = g.unplaced

theorem agreeButForPlaces_refl {α : Type} (x : Except Fault α) : AgreeButForPlaces α x x := by
  cases x with
  | ok a => exact .inl ⟨a, rfl, rfl⟩
  | error f => exact .inr ⟨f, f, rfl, rfl, rfl⟩

theorem agreeButForPlaces_bind {α β : Type} {x y : Except Fault α} {f g : α → Except Fault β}
    (hxy : AgreeButForPlaces α x y) (hfg : ∀ a, AgreeButForPlaces β (f a) (g a)) :
    AgreeButForPlaces β (x >>= f) (y >>= g) := by
  obtain ⟨a, rfl, rfl⟩ | ⟨fault, fault', rfl, rfl, heq⟩ := hxy
  · exact hfg a
  · exact .inr ⟨fault, fault', rfl, rfl, heq⟩

/-- Runs of one setting, whatever the spans are. -/
theorem parallel_free (w : Setting) : Parallel .free AgreeButForPlaces w w where
  ok a := agreeButForPlaces_refl (.ok a)
  bind := agreeButForPlaces_bind
  fault _ _ _ _ _ := .inr ⟨_, _, rfl, rfl, rfl⟩
  operator op s s' _ := by
    obtain ⟨text, htext⟩ | ⟨name, hname⟩ := Emit.arithmeticOperator_cases op w.options.target
    · exact .inl ⟨text, htext s, htext s'⟩
    · exact .inr ⟨_, _, hname s, hname s', rfl⟩
  modules source := agreeButForPlaces_refl (w.modules source)
  indent := rfl

/-- **Spans do not matter.** The stripped form of a program is the one
program with the same nodes in which every span is `0..0`; programs have one
stripped form exactly if they differ in their spans only; and in every
setting such programs become the same chunks, or fail with faults that are
equal but for the place they point at. -/
theorem spans_do_not_matter (p : Program) :
    (∀ x, p.Alike .forgotten x ↔ x = p.stripSpans)
      ∧ ∀ q : Program, (p.stripSpans = q.stripSpans ↔ p.Alike .free q)
        ∧ (p.stripSpans = q.stripSpans → ∀ w : Setting,
          (∃ chunks, p.chunks w = .ok chunks ∧ q.chunks w = .ok chunks)
            ∨ ∃ f g, p.chunks w = .error f ∧ q.chunks w = .error g ∧ f.unplaced = g.unplaced) := by
  refine ⟨p.alike_stripped_iff, fun q => ⟨p.stripSpans_eq_iff q, fun heq w => ?_⟩⟩
  exact Program.chunks_parallel (parallel_free w) ((p.stripSpans_eq_iff q).1 heq)

theorem squareCall_moved :
    (squareCall 0).Alike .free (squareCall 4)
      ∧ (squareCall 4).chunks { modules := fun _ => .ok "" }
        = (squareCall 0).chunks { modules := fun _ => .ok "" }
      ∧ ∃ f g, (squareCall 0).chunks (Setting.withTarget { modules := fun _ => .ok "" } .posix)
          = .error f
        ∧ (squareCall 4).chunks (Setting.withTarget { modules := fun _ => .ok "" } .posix)
          = .error g
        ∧ f.unplaced = g.unplaced ∧ f.span? = some ⟨2, 8⟩ ∧ g.span? = some ⟨6, 12⟩ := by
  obtain ⟨-, hstripped⟩ := spans_do_not_matter (squareCall 0)
  obtain ⟨hiff, hruns⟩ := hstripped (squareCall 4)
  have heq : (squareCall 0).stripSpans = (squareCall 4).stripSpans := rfl
  refine ⟨hiff.1 heq, ?_, ?_⟩
  · obtain ⟨chunks, hfirst, hsecond⟩ | ⟨f, g, hf, -⟩ := hruns heq { modules := fun _ => .ok "" }
    · rw [hfirst, hsecond]
    · cases hf
  · obtain ⟨chunks, hfirst, -⟩ | ⟨f, g, hf, hg, hunplaced⟩ :=
      hruns heq (Setting.withTarget { modules := fun _ => .ok "" } .posix)
    · cases hfirst
    · refine ⟨f, g, hf, hg, hunplaced, ?_, ?_⟩
      · cases hf
        rfl
      · cases hg
        rfl

end ScriptToShell
