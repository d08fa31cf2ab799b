import Mathlib.Data.List.Chain
import Mathlib.Data.List.Nodup
import Mathlib.Logic.Relation
import ScriptToShell.Build.Order

/-!
# The order of modules is a schedule

The walk over the imports of a set of modules either lists them so that
every module comes after the modules it imports, or ends at a circle of
imports.

Two facts about one visit carry both halves. A visit that succeeds takes
one **schedule** to a longer one (`Scheduled`): a list of modules in which
every import of a module that lies in the set stands before it. What
keeps the longer list free of repetitions is that a visit never adds a
module of the way that led to it (`Extension.clear`), although the test
for the way comes after the test for the order. A visit that fails has
met a module of its own way, and the way from there on is a circle
(`IsCircle`), because each module of a way imports the next one
(`IsWay`). The two halves exclude each other: along a schedule the places
of imported modules decrease, and along a circle they cannot.

The walk starts from the modules in the order of their paths. That order
tells any two modules of a set apart, so nothing depends on the order in
which the set is listed.
-/

namespace ScriptToShell

/-! ## Paths in order -/

namespace Path

/-- The place of a component among the kinds of components. -/
def Component.rank : Component → Nat
  | .root => 0
  | .current => 1
  | .parent => 2
  | .normal _ => 3

/-- Components are compared by kind first and by text then. -/
theorem Component.compare_eq_compareLex :
    Component.compare = compareLex (compareOn Component.rank) (compareOn Component.text) := by
  funext a b
  cases a <;> cases b <;>
    simp [Component.compare, compareLex, compareOn, Component.rank, Component.text] <;> rfl

instance : Std.TransCmp Component.compare := by
  rw [Component.compare_eq_compareLex]
  infer_instance

instance : Std.LawfulEqCmp Component.compare where
  eq_of_compare {a b} h := by
    cases a <;> cases b <;> simp_all [Component.compare]
  compare_self {a} := by
    cases a <;> simp [Component.compare]

/-- Lists of components are compared lexicographically. -/
theorem compareComponents_eq_compareLex :
    compareComponents = List.compareLex Component.compare := by
  funext as bs
  induction as generalizing bs with
  | nil => cases bs <;> rfl
  | cons a as ih =>
    cases bs with
    | nil => rfl
    | cons b bs =>
      rw [compareComponents, List.compareLex_cons_cons, ih]

instance : Std.TransCmp compareComponents := by
  rw [compareComponents_eq_compareLex]
  infer_instance

instance : Std.LawfulEqCmp compareComponents := by
  rw [compareComponents_eq_compareLex]
  infer_instance

/-- The order of paths as a comparison. -/
theorem le_iff_isLE {p q : Path} :
    p.le q = true ↔ (compareComponents p.components q.components).isLE = true := by
  unfold le
  cases compareComponents p.components q.components <;> simp

theorem le_trans {p q r : Path} (hpq : p.le q = true) (hqr : q.le r = true) : p.le r = true :=
  le_iff_isLE.2 (Std.TransCmp.isLE_trans (le_iff_isLE.1 hpq) (le_iff_isLE.1 hqr))

/-- Comparing two paths the other way round swaps the outcome. -/
theorem compareComponents_swap (as bs : List Component) :
    compareComponents bs as = (compareComponents as bs).swap :=
  @Std.OrientedCmp.eq_swap _ compareComponents _ bs as

theorem le_total (p q : Path) : (p.le q || q.le p) = true := by
  rw [Bool.or_eq_true, le_iff_isLE, le_iff_isLE, compareComponents_swap p.components]
  cases compareComponents p.components q.components <;> simp

/-- Paths that neither comes before the other take the same steps. -/
theorem components_eq_of_le_of_le {p q : Path} (hpq : p.le q = true) (hqp : q.le p = true) :
    p.components = q.components := by
  rw [le_iff_isLE] at hpq hqp
  rw [compareComponents_swap p.components] at hqp
  have heq : compareComponents p.components q.components = .eq := by
    revert hpq hqp
    cases compareComponents p.components q.components <;> simp
  exact Std.LawfulEqCmp.eq_of_compare heq

end Path

namespace ImportGraph

/-! ## Modules and imports -/

/-- The modules of a set. -/
def modules (g : ImportGraph) : List Path := g.map (·.1)

/-- **Every module has one entry**: no two entries are under paths that
take the same steps. -/
def IsMap (g : ImportGraph) : Prop := (g.map (·.1.components)).Nodup

instance (g : ImportGraph) : Decidable g.IsMap := inferInstanceAs (Decidable (List.Nodup _))

/-- **A module of the set imports another**: one of its imports leads to
it. An import that leads out of the set relates it to nothing. -/
def Imports (g : ImportGraph) (file other : Path) : Prop :=
  other ∈ g.modules
    ∧ ∃ imports, (file, imports) ∈ g ∧ ∃ next ∈ imports, next.components = other.components

theorem mem_modules {g : ImportGraph} {file : Path} {imports : List Path}
    (h : (file, imports) ∈ g) : file ∈ g.modules :=
  List.mem_map.2 ⟨(file, imports), h, rfl⟩

/-- A list of the same entries has the same modules. -/
theorem modules_perm {g g' : ImportGraph} (h : g'.Perm g) : g'.modules.Perm g.modules :=
  h.map _

theorem Imports.left_mem {g : ImportGraph} {file other : Path} (h : g.Imports file other) :
    file ∈ g.modules := by
  obtain ⟨-, imports, hmem, -⟩ := h
  exact mem_modules hmem

/-- In a map, a path leads to an entry exactly if the entry is under a
path that takes the same steps. -/
theorem IsMap.entry?_eq_some_iff {g : ImportGraph} (hg : g.IsMap) {path : Path}
    {entry : Path × List Path} :
    g.entry? path = some entry ↔ entry ∈ g ∧ entry.1.components = path.components := by
  constructor
  · intro h
    exact ⟨List.mem_of_find?_eq_some h, by simpa using List.find?_some h⟩
  · rintro ⟨hmem, hsame⟩
    cases hfind : g.entry? path with
    | none => exact absurd hsame (by simpa using List.find?_eq_none.1 hfind entry hmem)
    | some other =>
      have hother : other.1.components = path.components := by
        simpa using List.find?_some hfind
      have heq : other = entry := List.inj_on_of_nodup_map hg (List.mem_of_find?_eq_some hfind)
        hmem (hother.trans hsame.symm)
      rw [heq]

/-- The paths of a map tell its modules apart. -/
theorem IsMap.eq_of_components_eq {g : ImportGraph} (hg : g.IsMap) {file other : Path}
    (hfile : file ∈ g.modules) (hother : other ∈ g.modules)
    (h : file.components = other.components) : file = other := by
  obtain ⟨entry, hentry, rfl⟩ := List.mem_map.1 hfile
  obtain ⟨entry', hentry', rfl⟩ := List.mem_map.1 hother
  exact congrArg Prod.fst (List.inj_on_of_nodup_map hg hentry hentry' h)

/-- What a module imports within the set is what its imports lead to. -/
theorem IsMap.imports_iff {g : ImportGraph} (hg : g.IsMap) {file other : Path}
    {imports : List Path} (hmem : (file, imports) ∈ g) :
    g.Imports file other
      ↔ ∃ next ∈ imports, ∃ others, g.entry? next = some (other, others) := by
  constructor
  · rintro ⟨hother, imports', hmem', next, hnext, hsame⟩
    have heq : (file, imports') = (file, imports) :=
      List.inj_on_of_nodup_map hg hmem' hmem rfl
    obtain ⟨⟨_, others⟩, hentry, rfl⟩ := List.mem_map.1 hother
    rw [(Prod.mk.inj heq).2] at hnext
    exact ⟨next, hnext, others, hg.entry?_eq_some_iff.2 ⟨hentry, hsame.symm⟩⟩
  · rintro ⟨next, hnext, others, hfound⟩
    obtain ⟨hentry, hsame⟩ := hg.entry?_eq_some_iff.1 hfound
    exact ⟨mem_modules hentry, imports, hmem, next, hnext, hsame.symm⟩

/-! ## Schedules -/

/-- **A schedule**: a list of modules of the set without repetitions, in
which a module comes after everything it imports. -/
inductive Scheduled (g : ImportGraph) : List Path → Prop
  | nil : Scheduled g []
  | snoc {order : List Path} {file : Path} (before : Scheduled g order) (fresh : file ∉ order)
      (known : file ∈ g.modules) (ready : ∀ other, g.Imports file other → other ∈ order) :
      Scheduled g (order ++ [file])

namespace Scheduled

variable {g : ImportGraph} {order : List Path}

theorem nodup (h : g.Scheduled order) : order.Nodup := by
  induction h with
  | nil => exact List.nodup_nil
  | snoc _ fresh _ _ ih =>
    exact List.nodup_append.2
      ⟨ih, List.nodup_singleton _, fun a ha b hb hab =>
        fresh (List.mem_singleton.1 hb ▸ hab ▸ ha)⟩

theorem subset_modules (h : g.Scheduled order) : order ⊆ g.modules := by
  induction h with
  | nil => exact List.nil_subset _
  | snoc _ _ known _ ih => exact List.append_subset.2 ⟨ih, by simpa using known⟩

/-- **An imported module stands strictly before the one that imports
it.** -/
theorem idxOf_lt (h : g.Scheduled order) {file other : Path} (hfile : file ∈ order)
    (himp : g.Imports file other) : order.idxOf other < order.idxOf file := by
  induction h with
  | nil => exact absurd hfile List.not_mem_nil
  | @snoc order last _ fresh _ ready ih =>
    by_cases hmem : file ∈ order
    · have hlt := ih hmem
      have hother : other ∈ order :=
        List.idxOf_lt_length_iff.1 (hlt.trans (List.idxOf_lt_length_iff.2 hmem))
      rw [List.idxOf_append_of_mem hother, List.idxOf_append_of_mem hmem]
      exact hlt
    · obtain rfl : file = last := by
        simpa [hmem] using hfile
      have hother : other ∈ order := ready other himp
      rw [List.idxOf_append_of_mem hother, List.idxOf_append_of_notMem hmem]
      exact (List.idxOf_lt_length_iff.2 hother).trans_le (Nat.le_add_right _ _)

/-- What a module imports stands among those before it. -/
theorem mem_of_imports {before after : List Path} {file other : Path}
    (h : g.Scheduled (before ++ file :: after)) (himp : g.Imports file other) : other ∈ before := by
  have hfresh : file ∉ before := fun hmem =>
    (List.nodup_append.1 h.nodup).2.2 file hmem file List.mem_cons_self rfl
  have hlt := h.idxOf_lt (List.mem_append_right before List.mem_cons_self) himp
  rw [List.idxOf_append_of_notMem hfresh, List.idxOf_cons_self, Nat.add_zero] at hlt
  by_contra hother
  rw [List.idxOf_append_of_notMem hother] at hlt
  exact Nat.not_lt.2 (Nat.le_add_right _ _) hlt

/-- A schedule of the whole set leaves no room for a circle: places
decrease along imports. -/
theorem not_transGen (h : g.Scheduled order) (hall : g.modules ⊆ order) (file : Path) :
    ¬ Relation.TransGen g.Imports file file := by
  have hlt : ∀ other, Relation.TransGen g.Imports file other →
      order.idxOf other < order.idxOf file := by
    intro other hgen
    induction hgen with
    | single himp => exact h.idxOf_lt (hall himp.left_mem) himp
    | tail _ himp ih => exact (h.idxOf_lt (hall himp.left_mem) himp).trans ih
  intro hgen
  exact Nat.lt_irrefl _ (hlt file hgen)

end Scheduled

/-! ## What a visit adds -/

/-- A path that leads out of the set leaves the order as it is. -/
theorem visit_of_none {g : ImportGraph} {way order : List Path} {path : Path}
    (h : g.entry? path = none) : g.visit way order path = .ok order := by
  rw [visit]
  split
  · rfl
  · rename_i hfound
    rw [h] at hfound
    cases hfound

/-- A path that leads to a module of the set: the module is done, closes a
circle, or is walked. -/
theorem visit_of_some {g : ImportGraph} {way order imports : List Path} {path file : Path}
    (h : g.entry? path = some (file, imports)) :
    g.visit way order path
      = if file ∈ order then .ok order
        else if file ∈ way then .error (.importCycle (circle way file))
        else (imports.foldlM (g.visit (way ++ [file])) order).map (· ++ [file]) := by
  rw [visit]
  split
  · rename_i hfound
    rw [h] at hfound
    cases hfound
  · rename_i hfound
    rw [h] at hfound
    obtain ⟨rfl, rfl⟩ := Prod.mk.inj (Option.some.inj hfound)
    split
    · rfl
    · split
      · rfl
      · cases List.foldlM (g.visit (way ++ [file])) order imports <;> rfl

/-- **What a visit makes of the order**: a schedule that keeps every
module of it and adds none of the way. -/
structure Extension (g : ImportGraph) (way order order' : List Path) : Prop where
  /-- The new order is a schedule. -/
  scheduled : g.Scheduled order'
  /-- Nothing is taken out. -/
  grows : order ⊆ order'
  /-- No module of the way is put in. -/
  clear : ∀ file ∈ order', file ∈ way → file ∈ order

namespace Extension

variable {g : ImportGraph} {way order order' order'' : List Path}

theorem refl (h : g.Scheduled order) : g.Extension way order order :=
  ⟨h, List.Subset.refl _, fun _ hfile _ => hfile⟩

theorem trans (h : g.Extension way order order') (h' : g.Extension way order' order'') :
    g.Extension way order order'' :=
  ⟨h'.scheduled, List.Subset.trans h.grows h'.grows,
    fun file hfile hway => h.clear file (h'.clear file hfile hway) hway⟩

/-- Once everything a module imports is in the order, the module itself
can follow. -/
theorem close {file : Path} (h : g.Extension (way ++ [file]) order order')
    (fresh : file ∉ order) (offWay : file ∉ way) (known : file ∈ g.modules)
    (ready : ∀ other, g.Imports file other → other ∈ order') :
    g.Extension way order (order' ++ [file]) := by
  have hfile : file ∉ order' := fun hmem => fresh (h.clear file hmem (by simp))
  refine ⟨h.scheduled.snoc hfile known ready,
    List.Subset.trans h.grows (List.subset_append_left _ _), ?_⟩
  intro other hmem hway
  rcases List.mem_append.1 hmem with hold | hnew
  · exact h.clear other hold (List.mem_append_left _ hway)
  · exact absurd (List.mem_singleton.1 hnew ▸ hway) offWay

end Extension

/-- A walk over a list that succeeds is a step that succeeds before a walk
that does. -/
theorem foldlM_cons_ok {α β : Type} {step : α → β → Except Fault α} {a c : α} {b : β}
    {bs : List β} (h : (b :: bs).foldlM step a = .ok c) :
    ∃ a', step a b = .ok a' ∧ bs.foldlM step a' = .ok c := by
  rw [List.foldlM_cons] at h
  cases hstep : step a b with
  | error fault => rw [hstep] at h; exact absurd h (by simp [bind, Except.bind])
  | ok a' => rw [hstep] at h; exact ⟨a', rfl, h⟩

/-- A walk over a list fails at one of its steps. -/
theorem exists_of_foldlM_error {α β : Type} {step : α → β → Except Fault α} {a : α}
    {bs : List β} {fault : Fault} (h : bs.foldlM step a = .error fault) :
    ∃ a', ∃ b ∈ bs, step a' b = .error fault := by
  induction bs generalizing a with
  | nil => exact absurd h (by simp [pure, Except.pure])
  | cons b bs ih =>
    rw [List.foldlM_cons] at h
    cases hstep : step a b with
    | error fault' =>
      rw [hstep] at h
      obtain rfl : fault' = fault := by simpa [bind, Except.bind] using h
      exact ⟨a, b, List.mem_cons_self, hstep⟩
    | ok a' =>
      rw [hstep] at h
      obtain ⟨a'', b', hb', hfail⟩ := ih h
      exact ⟨a'', b', List.mem_cons_of_mem _ hb', hfail⟩

/-- **What visiting a path establishes**: the order is extended, and the
module the path leads to is in it. -/
def Reaches (g : ImportGraph) (way order order' : List Path) (path : Path) : Prop :=
  g.Extension way order order'
    ∧ ∀ file imports, g.entry? path = some (file, imports) → file ∈ order'

/-- Visits one behind the other reach everything each of them is to
reach. -/
theorem reaches_of_foldlM {g : ImportGraph} {way : List Path}
    (hvisit : ∀ order order' path, g.Scheduled order → g.visit way order path = .ok order' →
      g.Reaches way order order' path)
    {paths order order' : List Path} (horder : g.Scheduled order)
    (h : paths.foldlM (g.visit way) order = .ok order') :
    g.Extension way order order'
      ∧ ∀ path ∈ paths, ∀ file imports, g.entry? path = some (file, imports) → file ∈ order' := by
  induction paths generalizing order with
  | nil =>
    obtain rfl : order = order' := by simpa [pure, Except.pure] using h
    exact ⟨.refl horder, fun _ hpath => absurd hpath List.not_mem_nil⟩
  | cons path paths ih =>
    obtain ⟨mid, hfirst, hrest⟩ := foldlM_cons_ok h
    obtain ⟨hext, hreach⟩ := hvisit _ _ _ horder hfirst
    obtain ⟨hext', hreach'⟩ := ih hext.scheduled hrest
    refine ⟨hext.trans hext', fun path' hpath' file imports hfound => ?_⟩
    rcases List.mem_cons.1 hpath' with rfl | hmem
    · exact hext'.grows (hreach file imports hfound)
    · exact hreach' path' hmem file imports hfound

/-- **A visit that succeeds extends the schedule** by the module it is
to reach. -/
theorem IsMap.reaches_of_visit {g : ImportGraph} (hg : g.IsMap) (way order order' : List Path)
    (path : Path) (horder : g.Scheduled order) (h : g.visit way order path = .ok order') :
    g.Reaches way order order' path := by
  -- the walk below a module goes on along a longer way, so the induction is on what lies ahead
  induction way, order, path using visit.induct g generalizing order' with
  | case1 way order path hnone =>
    rw [visit_of_none hnone] at h
    obtain rfl : order = order' := Except.ok.inj h
    exact ⟨.refl horder, fun file imports hfound => absurd hfound (by simp [hnone])⟩
  | case2 way order path file imports hfound hmem =>
    rw [visit_of_some hfound, if_pos hmem] at h
    obtain rfl : order = order' := Except.ok.inj h
    refine ⟨.refl horder, fun file' imports' hfound' => ?_⟩
    rw [hfound] at hfound'
    exact (Prod.mk.inj (Option.some.inj hfound')).1 ▸ hmem
  | case3 way order path file imports hfound hmem hway =>
    rw [visit_of_some hfound, if_neg hmem, if_pos hway] at h
    cases h
  | case4 way order path file imports hfound hmem hway ih =>
    rw [visit_of_some hfound, if_neg hmem, if_neg hway] at h
    cases hwalk : imports.foldlM (g.visit (way ++ [file])) order with
    | error fault => rw [hwalk] at h; cases h
    | ok walked =>
      rw [hwalk] at h
      obtain rfl : walked ++ [file] = order' := Except.ok.inj h
      obtain ⟨hext, hreach⟩ :=
        reaches_of_foldlM (fun order order' path => ih order path order') horder hwalk
      have hentry : (file, imports) ∈ g := (hg.entry?_eq_some_iff.1 hfound).1
      have hready : ∀ other, g.Imports file other → other ∈ walked := by
        intro other himp
        obtain ⟨next, hnext, others, hother⟩ := (hg.imports_iff hentry).1 himp
        exact hreach next hnext other others hother
      refine ⟨hext.close hmem hway (mem_modules hentry) hready, ?_⟩
      intro file' imports' hfound'
      rw [hfound] at hfound'
      rw [← (Prod.mk.inj (Option.some.inj hfound')).1]
      exact List.mem_append_right _ (List.mem_singleton_self file)

/-- **An order that is found is a schedule of the whole set.** -/
theorem IsMap.scheduled_of_order {g : ImportGraph} (hg : g.IsMap) {order : List Path}
    (h : g.order = .ok order) : g.Scheduled order ∧ g.modules ⊆ order := by
  obtain ⟨hext, hreach⟩ := reaches_of_foldlM (hg.reaches_of_visit []) .nil h
  refine ⟨hext.scheduled, fun file hfile => ?_⟩
  obtain ⟨⟨_, imports⟩, hentry, rfl⟩ := List.mem_map.1 hfile
  exact hreach _ ((List.mergeSort_perm _ _).mem_iff.2 hfile) _ imports
    (hg.entry?_eq_some_iff.2 ⟨hentry, rfl⟩)

/-- A set that is listed in the order of the paths is visited as it is
listed. -/
theorem order_eq_of_pairwise {g : ImportGraph}
    (h : g.modules.Pairwise fun file file' => Path.le file file') :
    g.order = g.modules.foldlM (g.visit []) [] := by
  show (g.modules.mergeSort Path.le).foldlM (g.visit []) [] = _
  rw [List.mergeSort_of_pairwise h]

/-- An order lists the modules of the set. -/
theorem IsMap.perm_of_order {g : ImportGraph} (hg : g.IsMap) {order : List Path}
    (h : g.order = .ok order) : order.Perm g.modules := by
  obtain ⟨hscheduled, hall⟩ := hg.scheduled_of_order h
  have hnodup : (g.modules.map Path.components).Nodup := by
    unfold modules
    rw [List.map_map]
    exact hg
  exact (List.perm_ext_iff_of_nodup hscheduled.nodup hnodup.of_map).2 fun file =>
    ⟨fun hf => hscheduled.subset_modules hf, fun hf => hall hf⟩

/-! ## Where a walk fails -/

/-- **A circle of imports**, from a module back to itself. -/
structure IsCircle (g : ImportGraph) (chain : List Path) : Prop where
  /-- A circle has a start and an end. -/
  two_le_length : 2 ≤ chain.length
  /-- It ends where it starts. -/
  closed : chain.head? = chain.getLast?
  /-- It passes no module twice on its way round. -/
  distinct : chain.dropLast.Nodup
  /-- It stays within the set. -/
  inside : ∀ file ∈ chain, file ∈ g.modules
  /-- Every module on it imports the next one. -/
  linked : chain.IsChain g.Imports

/-- A circle leads from each module on it back to that module. -/
theorem IsCircle.exists_transGen {g : ImportGraph} {chain : List Path} (h : g.IsCircle chain) :
    ∃ file, Relation.TransGen g.Imports file file := by
  obtain ⟨hlength, hclosed, -, -, hlinked⟩ := h
  match chain, hlength with
  | first :: second :: rest, _ =>
    refine ⟨first, ?_⟩
    rw [List.isChain_cons_cons] at hlinked
    have hlast : (second :: rest).getLast (by simp) = first := by
      simpa [List.getLast?_eq_some_getLast] using hclosed.symm
    have hreach : Relation.ReflTransGen g.Imports second first :=
      hlast ▸ List.relationReflTransGen_of_exists_isChain_cons rest hlinked.2 rfl
    exact Relation.TransGen.head' hlinked.1 hreach

/-- **A way**: modules without repetitions, each importing the next one,
and the last importing whatever module is visited now. -/
structure IsWay (g : ImportGraph) (way : List Path) (path : Path) : Prop where
  /-- No module is on the way twice. -/
  distinct : way.Nodup
  /-- The way goes along imports, and so does the step to the module
  visited now. -/
  linked : ∀ file imports, g.entry? path = some (file, imports) →
    (way ++ [file]).IsChain g.Imports
  /-- The way stays within the set. -/
  inside : way ⊆ g.modules

/-- The circle at a module of the way starts where the way first has
it. -/
theorem circle_append_cons {before after : List Path} {file : Path} (h : file ∉ before) :
    circle (before ++ file :: after) file = file :: after ++ [file] := by
  have hbefore : ∀ other ∈ before, (decide (other ≠ file)) = true := by
    intro other hother
    exact decide_eq_true fun heq => h (heq ▸ hother)
  rw [circle, List.dropWhile_append_of_pos hbefore, List.dropWhile_cons_of_neg (by simp)]

/-- Meeting a module of the way closes a circle. -/
theorem IsWay.isCircle_circle {g : ImportGraph} {way imports : List Path} {path file : Path}
    (hw : g.IsWay way path) (hfound : g.entry? path = some (file, imports)) (hmem : file ∈ way) :
    g.IsCircle (circle way file) := by
  obtain ⟨before, after, rfl, hbefore⟩ := List.eq_append_cons_of_mem hmem
  have hdistinct : (file :: after).Nodup := hw.distinct.sublist (List.sublist_append_right _ _)
  have hlinked : (file :: after ++ [file]).IsChain g.Imports := by
    refine (hw.linked file imports hfound).suffix ?_
    rw [List.append_assoc]
    exact List.suffix_append _ _
  rw [circle_append_cons hbefore]
  refine ⟨by simp, ?_, by rwa [List.dropLast_concat], ?_, hlinked⟩
  · rw [List.getLast?_concat]
    rfl
  intro other hother
  refine hw.inside ?_
  rcases List.mem_append.1 hother with hcons | hlast
  · exact List.mem_append_right _ hcons
  · exact List.mem_singleton.1 hlast ▸ hmem

/-- The way goes on through a module that is walked. -/
theorem IsWay.snoc {g : ImportGraph} (hg : g.IsMap) {way imports : List Path} {path file : Path}
    (hw : g.IsWay way path) (hfound : g.entry? path = some (file, imports)) (fresh : file ∉ way)
    {next : Path} (hnext : next ∈ imports) : g.IsWay (way ++ [file]) next := by
  have hentry : (file, imports) ∈ g := (hg.entry?_eq_some_iff.1 hfound).1
  refine ⟨?_, ?_, ?_⟩
  · exact List.nodup_append.2 ⟨hw.distinct, List.nodup_singleton _, fun a ha b hb hab =>
      fresh (List.mem_singleton.1 hb ▸ hab ▸ ha)⟩
  · intro other others hother
    refine (hw.linked file imports hfound).append (List.isChain_singleton other) ?_
    intro last hlast first hfirst
    obtain rfl : last = file := by simpa using hlast.symm
    obtain rfl : first = other := by simpa using hfirst.symm
    exact (hg.imports_iff hentry).2 ⟨next, hnext, others, hother⟩
  · exact List.append_subset.2 ⟨hw.inside, by simpa using mem_modules hentry⟩

/-- **A visit that fails has found a circle.** -/
theorem IsMap.isCircle_of_visit {g : ImportGraph} (hg : g.IsMap) {way order : List Path}
    {path : Path} {fault : Fault} (hw : g.IsWay way path)
    (h : g.visit way order path = .error fault) :
    ∃ chain, fault = .importCycle chain ∧ g.IsCircle chain := by
  -- a fault arises only at a module of the way; below a module the way is one longer
  induction way, order, path using visit.induct g with
  | case1 way order path hnone =>
    rw [visit_of_none hnone] at h
    cases h
  | case2 way order path file imports hfound hmem =>
    rw [visit_of_some hfound, if_pos hmem] at h
    cases h
  | case3 way order path file imports hfound hmem hway =>
    rw [visit_of_some hfound, if_neg hmem, if_pos hway] at h
    exact ⟨circle way file, (Except.error.inj h).symm, hw.isCircle_circle hfound hway⟩
  | case4 way order path file imports hfound hmem hway ih =>
    rw [visit_of_some hfound, if_neg hmem, if_neg hway] at h
    cases hwalk : imports.foldlM (g.visit (way ++ [file])) order with
    | ok walked => rw [hwalk] at h; cases h
    | error fault' =>
      rw [hwalk] at h
      obtain rfl : fault' = fault := Except.error.inj h
      obtain ⟨order', next, hnext, hfail⟩ := exists_of_foldlM_error hwalk
      exact ih order' next (hw.snoc hg hfound hway hnext) hfail

/-- A search for an order that fails has found a circle. -/
theorem IsMap.isCircle_of_order {g : ImportGraph} (hg : g.IsMap) {fault : Fault}
    (h : g.order = .error fault) : ∃ chain, fault = .importCycle chain ∧ g.IsCircle chain := by
  obtain ⟨order, path, -, hfail⟩ := exists_of_foldlM_error h
  refine hg.isCircle_of_visit ⟨List.nodup_nil, ?_, List.nil_subset _⟩ hfail
  exact fun file _ _ => List.isChain_singleton file

/-! ## The listing of the set does not matter -/

/-- Two listings of one map lead every path to the same entry. -/
theorem IsMap.entry?_eq_of_perm {g g' : ImportGraph} (hg : g.IsMap) (hperm : g'.Perm g)
    (path : Path) : g'.entry? path = g.entry? path := by
  have hg' : g'.IsMap := (hperm.map _).nodup_iff.2 hg
  refine Option.ext fun entry => ?_
  rw [hg'.entry?_eq_some_iff, hg.entry?_eq_some_iff, hperm.mem_iff]

/-- A visit reads nothing of the set but where paths lead. -/
theorem visit_congr {g g' : ImportGraph} (h : ∀ path, g'.entry? path = g.entry? path)
    (way order : List Path) (path : Path) : g'.visit way order path = g.visit way order path := by
  induction way, order, path using visit.induct g with
  | case1 way order path hnone =>
    rw [visit_of_none hnone, visit_of_none ((h path).trans hnone)]
  | case2 way order path file imports hfound hmem =>
    rw [visit_of_some hfound, visit_of_some ((h path).trans hfound), if_pos hmem, if_pos hmem]
  | case3 way order path file imports hfound hmem hway =>
    rw [visit_of_some hfound, visit_of_some ((h path).trans hfound), if_neg hmem, if_neg hmem,
      if_pos hway, if_pos hway]
  | case4 way order path file imports hfound hmem hway ih =>
    have hsame : g'.visit (way ++ [file]) = g.visit (way ++ [file]) := by
      funext order next
      exact ih order next
    rw [visit_of_some hfound, visit_of_some ((h path).trans hfound), hsame]

/-- Two listings of one map are walked from the same modules in the same
order. -/
theorem IsMap.mergeSort_eq_of_perm {g g' : ImportGraph} (hg : g.IsMap) (hperm : g'.Perm g) :
    g'.modules.mergeSort Path.le = g.modules.mergeSort Path.le := by
  have hsorted : ∀ paths : List Path,
      (paths.mergeSort Path.le).Pairwise (fun p q => p.le q = true) :=
    List.pairwise_mergeSort (fun _ _ _ => Path.le_trans) Path.le_total
  have hmem : ∀ {paths : List Path} {p : Path}, p ∈ paths.mergeSort Path.le → p ∈ paths :=
    fun hp => (List.mergeSort_perm _ _).mem_iff.1 hp
  refine List.Perm.eq_of_pairwise ?_ (hsorted g'.modules) (hsorted g.modules) ?_
  · intro p q hp hq hpq hqp
    have hp' : p ∈ g.modules := (modules_perm hperm).mem_iff.1 (hmem hp)
    exact hg.eq_of_components_eq hp' (hmem hq) (Path.components_eq_of_le_of_le hpq hqp)
  · exact (List.mergeSort_perm _ _).trans
      ((modules_perm hperm).trans (List.mergeSort_perm _ _).symm)

/-- **The order does not depend on the listing.** -/
theorem IsMap.order_eq_of_perm {g g' : ImportGraph} (hg : g.IsMap) (hperm : g'.Perm g) :
    g'.order = g.order := by
  have hvisit : g'.visit [] = g.visit [] := by
    funext order path
    exact visit_congr (hg.entry?_eq_of_perm hperm) [] order path
  show (g'.modules.mergeSort Path.le).foldlM (g'.visit []) []
    = (g.modules.mergeSort Path.le).foldlM (g.visit []) []
  rw [hvisit, hg.mergeSort_eq_of_perm hperm]

/-! ## Orders and circles -/

/-- **An order lists every module of the set once, after all it
imports**, and the way the set is listed does not matter to it. -/
theorem order_topological (g : ImportGraph) (hg : g.IsMap) :
    (∀ order, g.order = .ok order →
      order.Nodup ∧ (∀ file, file ∈ order ↔ file ∈ g.modules)
        ∧ ∀ file other, g.Imports file other → order.idxOf other < order.idxOf file)
      ∧ ∀ g' : ImportGraph, g'.Perm g → g'.order = g.order := by
  refine ⟨fun order h => ?_, fun g' => hg.order_eq_of_perm⟩
  obtain ⟨hscheduled, hall⟩ := hg.scheduled_of_order h
  refine ⟨hscheduled.nodup, fun file => ⟨fun hf => hscheduled.subset_modules hf, fun hf => hall hf⟩,
    fun file other himp => ?_⟩
  exact hscheduled.idxOf_lt (hall himp.left_mem) himp

/-- Two modules that share an import, and one that imports both, one of
them under two spellings, and a module outside the set. -/
def diamond : ImportGraph :=
  [(⟨"/p/a.js"⟩, [⟨"/p/c.js"⟩]), (⟨"/p/b.js"⟩, [⟨"/p/c.js"⟩]), (⟨"/p/c.js"⟩, []),
   (⟨"/p/main.js"⟩, [⟨"/p/b.js"⟩, ⟨"/lib/x.js"⟩, ⟨"/p/a.js"⟩, ⟨"/p/./b.js"⟩])]

theorem diamond_topological :
    diamond.IsMap
      ∧ diamond.order = .ok [⟨"/p/c.js"⟩, ⟨"/p/a.js"⟩, ⟨"/p/b.js"⟩, ⟨"/p/main.js"⟩]
      ∧ ([⟨"/p/c.js"⟩, ⟨"/p/a.js"⟩, ⟨"/p/b.js"⟩, ⟨"/p/main.js"⟩] : List Path).Nodup
      ∧ ImportGraph.order diamond.reverse = diamond.order := by
  have hmap : diamond.IsMap := by decide
  have hok : diamond.order = .ok [⟨"/p/c.js"⟩, ⟨"/p/a.js"⟩, ⟨"/p/b.js"⟩, ⟨"/p/main.js"⟩] := by
    show (diamond.modules.mergeSort Path.le).foldlM (diamond.visit []) [] = _
    rw [List.mergeSort_of_pairwise (by decide +kernel)]
    decide +kernel
  exact ⟨hmap, hok, ((order_topological diamond hmap).1 _ hok).1,
    (order_topological diamond hmap).2 _ (List.reverse_perm diamond)⟩

/-- **There is no order exactly if imports go round in a circle**, and
then the fault shows such a circle. -/
theorem order_fails_iff_cyclic (g : ImportGraph) (hg : g.IsMap) :
    ((∃ fault, g.order = .error fault) ↔ ∃ file, Relation.TransGen g.Imports file file)
      ∧ ∀ fault, g.order = .error fault →
        ∃ chain, fault = .importCycle chain ∧ g.IsCircle chain := by
  refine ⟨⟨?_, ?_⟩, fun fault => hg.isCircle_of_order⟩
  · rintro ⟨fault, h⟩
    obtain ⟨chain, -, hcircle⟩ := hg.isCircle_of_order h
    exact hcircle.exists_transGen
  · rintro ⟨file, hgen⟩
    cases h : g.order with
    | error fault => exact ⟨fault, rfl⟩
    | ok order =>
      -- places in the order would decrease all the way round the circle
      obtain ⟨hscheduled, hall⟩ := hg.scheduled_of_order h
      exact absurd hgen (hscheduled.not_transGen hall file)

/-- A module that leads into a circle it is not part of. -/
def ring : ImportGraph :=
  [(⟨"/p/a.js"⟩, [⟨"/p/b.js"⟩]), (⟨"/p/b.js"⟩, [⟨"/p/c.js"⟩]), (⟨"/p/c.js"⟩, [⟨"/p/b.js"⟩])]

theorem ring_fails :
    ring.IsMap
      ∧ ring.order = .error (.importCycle [⟨"/p/b.js"⟩, ⟨"/p/c.js"⟩, ⟨"/p/b.js"⟩])
      ∧ ring.IsCircle [⟨"/p/b.js"⟩, ⟨"/p/c.js"⟩, ⟨"/p/b.js"⟩]
      ∧ ∃ file, Relation.TransGen ring.Imports file file := by
  have hmap : ring.IsMap := by decide
  have hfail : ring.order
      = .error (.importCycle [⟨"/p/b.js"⟩, ⟨"/p/c.js"⟩, ⟨"/p/b.js"⟩]) := by
    show (ring.modules.mergeSort Path.le).foldlM (ring.visit []) [] = _
    rw [List.mergeSort_of_pairwise (by decide +kernel)]
    decide +kernel
  obtain ⟨chain, hchain, hcircle⟩ := (order_fails_iff_cyclic ring hmap).2 _ hfail
  refine ⟨hmap, hfail, ?_, (order_fails_iff_cyclic ring hmap).1.1 ⟨_, hfail⟩⟩
  rw [Fault.importCycle.inj hchain]
  exact hcircle

end ImportGraph

end ScriptToShell
