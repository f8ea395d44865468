import Mathlib
import Repercep.Runtime.ModuleGraph
set_option autoImplicit false

/-!
# The two walks over the linear layers

`quantize_module_linears` lists modules met once over the whole graph;
`replace_linears_with_quantized` goes down from parent to child, swaps what it meets and
remembers nothing.  Where the filter does not tell the paths of a layer apart, the two agree
exactly if the root is no layer to be swapped and every such layer hangs by one name under one
of the modules that are walked.
-/

namespace Repercep.Runtime

open Foundation

namespace ModuleGraph

variable {n : Nat}

/-! ## The walk that swaps -/

/-- What `_recurse` does with one child, the graph and the count being `s`. -/
def visitChild (walk : Fin n → String → ModuleGraph n × Nat → Option (ModuleGraph n × Nat))
    (nameFilter : Option String) (parent : Fin n) (pre : String) (s : ModuleGraph n × Nat)
    (e : String × Fin n) : Option (ModuleGraph n × Nat) :=
  let name := dotted pre e.1
  if s.1.isLinear e.2 && nameMatches nameFilter name then
    some (s.1.setattr parent e.1 (.quantized e.2), s.2 + 1)
  else
    walk e.2 name s

/-- `_recurse`, with a limit on the recursion's depth. -/
def recurse (nameFilter : Option String) :
    Nat → Fin n → String → ModuleGraph n × Nat → Option (ModuleGraph n × Nat)
  | 0, _, _, _ => none
  | depth + 1, parent, pre, s =>
    (s.1.namedChildren parent).foldlM
      (visitChild (recurse nameFilter depth) nameFilter parent pre) s

/-- `replace_linears_with_quantized` -/
def replaceLinearsWithQuantized (depth : Nat) (g : ModuleGraph n) (root : Fin n)
    (nameFilter : Option String) : Option (ModuleGraph n × Nat) :=
  recurse nameFilter depth root "" (g, 0)

/-- A layer one of whose places now has the quantised module made from it. -/
def Swapped (g g' : ModuleGraph n) (m : Fin n) : Prop :=
  ∃ p name, (name, m) ∈ g.moduleChildren p ∧ (name, Child.quantized m) ∈ g'.children p

/-- The walks agree: one swaps the layers the other lists, counts them, and leaves none. -/
def WalkersAgree (g : ModuleGraph n) (root : Fin n) (nameFilter : Option String) : Prop :=
  ∃ depth g' count, replaceLinearsWithQuantized depth g root nameFilter = some (g', count) ∧
    (∀ m, Swapped g g' m ↔ m ∈ (g.quantizeModuleLinears root nameFilter).map Prod.snd) ∧
    count = (g.quantizeModuleLinears root nameFilter).length ∧
    g'.quantizeModuleLinears root nameFilter = []

/-! ## Layers and places -/

section Places

variable (g : ModuleGraph n) (root : Fin n) (nameFilter : Option String)

/-- A linear layer that has a name the filter lets pass. -/
def Matched (m : Fin n) : Prop :=
  g.isLinear m = true ∧
    ∃ path, g.Reaches root path m ∧ nameMatches nameFilter (dottedName path) = true

/-- The filter lets all names of a linear layer pass or none. -/
def Consistent : Prop :=
  ∀ m path path', g.isLinear m = true → g.Reaches root path m → g.Reaches root path' m →
    nameMatches nameFilter (dottedName path) = true →
      nameMatches nameFilter (dottedName path') = true

/-- A child that is walked into. -/
def OpenStep (p m : Fin n) : Prop :=
  (∃ name, (name, m) ∈ g.moduleChildren p) ∧ ¬ Matched g root nameFilter m

/-- A module that is walked. -/
def Open (p : Fin n) : Prop :=
  Relation.ReflTransGen (OpenStep g root nameFilter) root p

/-- The modules that are walked are nested. -/
def Nested : Prop :=
  ∃ depth : Fin n → Nat, ∀ p m, Open g root nameFilter p → OpenStep g root nameFilter p m →
    depth m < depth p

/-- Every layer to be swapped has one place, and it is in a module that is walked. -/
structure WellPlaced : Prop where
  start : ¬ Matched g root nameFilter root
  nested : Nested g root nameFilter
  single : ∀ m, Matched g root nameFilter m →
    ∃! place : Fin n × String,
      Open g root nameFilter place.1 ∧ (place.2, m) ∈ g.moduleChildren place.1

end Places

/-! ## Writes -/

/-- A place and the layer it had. -/
structure Write (n : Nat) where
  parent : Fin n
  name : String
  linear : Fin n

/-- One `setattr` of a quantised layer. -/
def write (h : ModuleGraph n) (w : Write n) : ModuleGraph n :=
  h.setattr w.parent w.name (.quantized w.linear)

/-- A list of them, in order. -/
def writes (h : ModuleGraph n) (log : List (Write n)) : ModuleGraph n :=
  log.foldl write h

theorem writes_append (h : ModuleGraph n) (log log' : List (Write n)) :
    h.writes (log ++ log') = (h.writes log).writes log' :=
  List.foldl_append

theorem isLinear_writes (h : ModuleGraph n) (log : List (Write n)) :
    (h.writes log).isLinear = h.isLinear := by
  induction log generalizing h with
  | nil => rfl
  | cons w log ih => exact ih (h.write w)

theorem mem_children_write {h : ModuleGraph n} {w : Write n} {q : Fin n}
    {c : String × Child n} :
    c ∈ (h.write w).children q ↔
      (c ∈ h.children q ∧ ¬ (q = w.parent ∧ c.1 = w.name)) ∨
        ((q = w.parent ∧ c = (w.name, .quantized w.linear)) ∧
          w.name ∈ (h.children q).map Prod.fst) := by
  have hchildren : (h.write w).children q =
      if q = w.parent then setChild w.name (.quantized w.linear) (h.children q)
      else h.children q := rfl
  rw [hchildren]
  split
  · next heq =>
      rw [setChild, List.mem_map]
      constructor
      · rintro ⟨c', hc', rfl⟩
        split
        · next hname =>
            exact .inr ⟨⟨heq, by rw [hname]⟩, hname ▸ List.mem_map_of_mem hc'⟩
        · next hname => exact .inl ⟨hc', fun h => hname h.2⟩
      · intro hc
        cases hc with
        | inl hkept =>
            have hname : c.1 ≠ w.name := fun h => hkept.2 ⟨heq, h⟩
            exact ⟨c, hkept.1, if_neg hname⟩
        | inr hnew =>
            obtain ⟨c', hc', hname⟩ := List.mem_map.mp hnew.2
            refine ⟨c', hc', ?_⟩
            rw [if_pos hname, hnew.1.2, hname]
  · next hne =>
      constructor
      · intro hc
        exact .inl ⟨hc, fun h => hne h.1⟩
      · intro hc
        cases hc with
        | inl hkept => exact hkept.1
        | inr hnew => exact absurd hnew.1.1 hne

/-- Whether a write is to a place. -/
def Write.At (w : Write n) (q : Fin n) (name : String) : Prop :=
  q = w.parent ∧ name = w.name

/-- A write takes one module from its place. -/
theorem mem_moduleChildren_write {h : ModuleGraph n} {w : Write n} {q : Fin n}
    {e : String × Fin n} :
    e ∈ (h.write w).moduleChildren q ↔ e ∈ h.moduleChildren q ∧ ¬ w.At q e.1 := by
  rw [mem_moduleChildren, mem_moduleChildren, mem_children_write, Write.At]
  constructor
  · intro he
    cases he with
    | inl hkept => exact hkept
    | inr hnew => cases (Prod.mk.inj hnew.1.2).2
  · exact .inl

theorem mem_moduleChildren_writes {h : ModuleGraph n} {log : List (Write n)} {q : Fin n}
    {e : String × Fin n} :
    e ∈ (h.writes log).moduleChildren q ↔
      e ∈ h.moduleChildren q ∧ ∀ w ∈ log, ¬ w.At q e.1 := by
  induction log generalizing h with
  | nil => simp [writes]
  | cons w log ih =>
      have hstep : h.writes (w :: log) = (h.write w).writes log := rfl
      rw [hstep, ih, mem_moduleChildren_write, List.forall_mem_cons, and_assoc]

/-- What is in a place that was written. -/
theorem written {h : ModuleGraph n} {log : List (Write n)} {q : Fin n} {name : String}
    (hname : name ∈ (h.children q).map Prod.fst) (hlog : ∃ w ∈ log, w.At q name) :
    ∃ w ∈ log, w.At q name ∧ (name, Child.quantized w.linear) ∈ (h.writes log).children q := by
  induction log using List.reverseRecOn with
  | nil =>
      obtain ⟨w, hw, -⟩ := hlog
      cases hw
  | append_singleton log w ih =>
      have hnames : ∀ log' : List (Write n), name ∈ ((h.writes log').children q).map Prod.fst := by
        intro log'
        induction log' using List.reverseRecOn with
        | nil => exact hname
        | append_singleton log' w' ih' =>
            rw [writes_append]
            have hsame := map_fst_setattrChildren (h.writes log').children w'.parent w'.name
              (.quantized w'.linear) q
            exact hsame.symm ▸ ih'
      rw [writes_append]
      by_cases hat : w.At q name
      · refine ⟨w, by simp, hat, ?_⟩
        obtain ⟨hq, hn⟩ := hat
        exact mem_children_write.mpr (.inr ⟨⟨hq, by rw [hn]⟩, hn ▸ hnames log⟩)
      · obtain ⟨w', hw', hat'⟩ := hlog
        have hmem : w' ∈ log := by
          cases List.mem_append.mp hw' with
          | inl h => exact h
          | inr h => exact absurd (List.mem_singleton.mp h ▸ hat') hat
        obtain ⟨w'', hw'', hat'', hin⟩ := ih ⟨w', hmem, hat'⟩
        exact ⟨w'', List.mem_append_left _ hw'', hat'',
          mem_children_write.mpr (.inl ⟨hin, fun h => hat h⟩)⟩

/-! ## What the walk writes -/

section Walk

variable {g : ModuleGraph n} {root : Fin n} {nameFilter : Option String}

/-- A place the walk may write: in a module that is walked, with a layer to be swapped. -/
structure ValidWrite (g : ModuleGraph n) (root : Fin n) (nameFilter : Option String)
    (w : Write n) : Prop where
  child : (w.name, w.linear) ∈ g.moduleChildren w.parent
  layer : Matched g root nameFilter w.linear
  walked : Open g root nameFilter w.parent

/-- A graph the walk can have made of `g`. -/
def Derived (g : ModuleGraph n) (root : Fin n) (nameFilter : Option String)
    (h : ModuleGraph n) : Prop :=
  ∃ log, (∀ w ∈ log, ValidWrite g root nameFilter w) ∧ h = g.writes log

theorem Derived.self : Derived g root nameFilter g :=
  ⟨[], by simp, rfl⟩

theorem Derived.writes {h : ModuleGraph n} (hderived : Derived g root nameFilter h)
    {log : List (Write n)} (hlog : ∀ w ∈ log, ValidWrite g root nameFilter w) :
    Derived g root nameFilter (h.writes log) := by
  obtain ⟨log', hlog', rfl⟩ := hderived
  refine ⟨log' ++ log, ?_, (writes_append g log' log).symm⟩
  intro w hw
  cases List.mem_append.mp hw with
  | inl h => exact hlog' w h
  | inr h => exact hlog w h

theorem Derived.isLinear {h : ModuleGraph n} (hderived : Derived g root nameFilter h) :
    h.isLinear = g.isLinear := by
  obtain ⟨log, -, rfl⟩ := hderived
  exact isLinear_writes g log

theorem Derived.sub {h : ModuleGraph n} (hderived : Derived g root nameFilter h) {p : Fin n}
    {e : String × Fin n} (he : e ∈ h.moduleChildren p) : e ∈ g.moduleChildren p := by
  obtain ⟨log, -, rfl⟩ := hderived
  exact (mem_moduleChildren_writes.mp he).1

/-- A valid write to the place of a child is a write of that child. -/
theorem ValidWrite.linear_eq {w : Write n} (hw : ValidWrite g root nameFilter w) {p : Fin n}
    {e : String × Fin n} (he : e ∈ g.moduleChildren p) (hat : w.At p e.1) : w.linear = e.2 := by
  have hchild := hw.child
  rw [← hat.1] at hchild
  exact congrArg Prod.snd
    (List.inj_on_of_nodup_map (moduleChildren_nodup g p) hchild he hat.2.symm)

theorem Derived.keep {h : ModuleGraph n} (hderived : Derived g root nameFilter h) {p : Fin n}
    {e : String × Fin n} (he : e ∈ g.moduleChildren p)
    (hopen : ¬ Matched g root nameFilter e.2) : e ∈ h.moduleChildren p := by
  obtain ⟨log, hlog, rfl⟩ := hderived
  refine mem_moduleChildren_writes.mpr ⟨he, ?_⟩
  intro w hw hat
  exact hopen ((hlog w hw).linear_eq he hat ▸ (hlog w hw).layer)

/-- Each write of a log takes a module from its place. -/
def Fresh (h : ModuleGraph n) : List (Write n) → Prop
  | [] => True
  | w :: log => (w.name, w.linear) ∈ h.moduleChildren w.parent ∧ Fresh (h.write w) log

theorem Fresh.append {h : ModuleGraph n} {log log' : List (Write n)} (hlog : Fresh h log)
    (hlog' : Fresh (h.writes log) log') : Fresh h (log ++ log') := by
  induction log generalizing h with
  | nil => exact hlog'
  | cons w log ih => exact ⟨hlog.1, ih hlog.2 hlog'⟩

/-- What a walk from `p` does to a graph and a count. -/
structure Walked (g : ModuleGraph n) (root : Fin n) (nameFilter : Option String) (p : Fin n)
    (s s' : ModuleGraph n × Nat) (log : List (Write n)) : Prop where
  graph : s'.1 = s.1.writes log
  count : s'.2 = s.2 + log.length
  valid : ∀ w ∈ log, ValidWrite g root nameFilter w
  below : ∀ w ∈ log, Relation.ReflTransGen (OpenStep g root nameFilter) p w.parent

theorem Walked.derived {p : Fin n} {s s' : ModuleGraph n × Nat} {log : List (Write n)}
    (hwalked : Walked g root nameFilter p s s' log) (hs : Derived g root nameFilter s.1) :
    Derived g root nameFilter s'.1 := by
  rw [hwalked.graph]
  exact hs.writes hwalked.valid

theorem Walked.append {p : Fin n} {s s₁ s₂ : ModuleGraph n × Nat} {log log' : List (Write n)}
    (h : Walked g root nameFilter p s s₁ log) (h' : Walked g root nameFilter p s₁ s₂ log') :
    Walked g root nameFilter p s s₂ (log ++ log') where
  graph := by rw [h'.graph, h.graph, writes_append]
  count := by rw [h'.count, h.count, List.length_append, Nat.add_assoc]
  valid := by
    intro w hw
    cases List.mem_append.mp hw with
    | inl hl => exact h.valid w hl
    | inr hl => exact h'.valid w hl
  below := by
    intro w hw
    cases List.mem_append.mp hw with
    | inl hl => exact h.below w hl
    | inr hl => exact h'.below w hl

/-- What is promised of the walks from children. -/
def WalkSpec (g : ModuleGraph n) (root : Fin n) (nameFilter : Option String)
    (walk : Fin n → String → ModuleGraph n × Nat → Option (ModuleGraph n × Nat)) : Prop :=
  ∀ p path s s', Derived g root nameFilter s.1 → Open g root nameFilter p →
    g.Reaches root path p → walk p (dottedName path) s = some s' →
      ∃ log, Walked g root nameFilter p s s' log ∧
        (Nested g root nameFilter → Fresh s.1 log)

/-- A child of a module that is walked is swapped where it is met or walked into. -/
theorem matched_iff (hcons : Consistent g root nameFilter) {h : ModuleGraph n} {p : Fin n}
    {path : List String} (hderived : Derived g root nameFilter h)
    (hpath : g.Reaches root path p) {e : String × Fin n} (he : e ∈ g.moduleChildren p) :
    (h.isLinear e.2 && nameMatches nameFilter (dotted (dottedName path) e.1)) = true ↔
      Matched g root nameFilter e.2 := by
  have hchild : g.Reaches root (path ++ [e.1]) e.2 := LabelPath.snoc hpath he
  rw [Bool.and_eq_true, hderived.isLinear, ← dottedName_snoc]
  constructor
  · intro hmatch
    exact ⟨hmatch.1, _, hchild, hmatch.2⟩
  · rintro ⟨hlinear, path', hpath', hmatch⟩
    exact ⟨hlinear, hcons e.2 path' _ hlinear hpath' hchild hmatch⟩

theorem visitChild_walked (hcons : Consistent g root nameFilter)
    {walk : Fin n → String → ModuleGraph n × Nat → Option (ModuleGraph n × Nat)}
    (hwalk : WalkSpec g root nameFilter walk) {p : Fin n} {path : List String}
    (hopen : Open g root nameFilter p) (hpath : g.Reaches root path p)
    {s s' : ModuleGraph n × Nat} (hs : Derived g root nameFilter s.1) {e : String × Fin n}
    (he : e ∈ g.moduleChildren p)
    (hvisit : visitChild walk nameFilter p (dottedName path) s e = some s') :
    ∃ log, Walked g root nameFilter p s s' log ∧
      (Nested g root nameFilter → e ∈ s.1.moduleChildren p → Fresh s.1 log ∧
        ∀ w ∈ log, w.At p e.1 ∨ w.parent ≠ p) := by
  rw [visitChild] at hvisit
  split at hvisit
  · next hmatch =>
      have hlayer := (matched_iff hcons hs hpath he).mp hmatch
      cases hvisit
      refine ⟨[⟨p, e.1, e.2⟩], ⟨rfl, rfl, ?_, ?_⟩, ?_⟩
      · intro w hw
        rw [List.mem_singleton.mp hw]
        exact ⟨he, hlayer, hopen⟩
      · intro w hw
        rw [List.mem_singleton.mp hw]
      · intro _ halive
        refine ⟨⟨halive, trivial⟩, ?_⟩
        intro w hw
        rw [List.mem_singleton.mp hw]
        exact .inl ⟨rfl, rfl⟩
  · next hmatch =>
      have hstep : OpenStep g root nameFilter p e.2 :=
        ⟨⟨e.1, he⟩, fun hlayer => hmatch ((matched_iff hcons hs hpath he).mpr hlayer)⟩
      rw [← dottedName_snoc] at hvisit
      obtain ⟨log, hwalked, hfresh⟩ := hwalk e.2 _ s s' hs (hopen.tail hstep)
        (LabelPath.snoc hpath he) hvisit
      refine ⟨log, ⟨hwalked.graph, hwalked.count, hwalked.valid, ?_⟩, ?_⟩
      · intro w hw
        exact (hwalked.below w hw).head hstep
      · intro hnested _
        refine ⟨hfresh hnested, ?_⟩
        intro w hw
        right
        -- below a child nothing is as deep as its parent
        obtain ⟨depth, hdepth⟩ := hnested
        have hbelow : ∀ q, Relation.ReflTransGen (OpenStep g root nameFilter) e.2 q →
            Open g root nameFilter q ∧ depth q < depth p := by
          intro q hq
          induction hq with
          | refl => exact ⟨hopen.tail hstep, hdepth p e.2 hopen hstep⟩
          | tail _ hlast ih =>
              exact ⟨ih.1.tail hlast, (hdepth _ _ ih.1 hlast).trans ih.2⟩
        intro heq
        have hlt := (hbelow _ (hwalked.below w hw)).2
        rw [heq] at hlt
        exact lt_irrefl _ hlt

/-- The loop over the children of a module that is walked. -/
theorem foldlM_walked (hcons : Consistent g root nameFilter)
    {walk : Fin n → String → ModuleGraph n × Nat → Option (ModuleGraph n × Nat)}
    (hwalk : WalkSpec g root nameFilter walk) {p : Fin n} {path : List String}
    (hopen : Open g root nameFilter p) (hpath : g.Reaches root path p)
    {es : List (String × Fin n)} (hes : ∀ e ∈ es, e ∈ g.moduleChildren p)
    (hnames : (es.map Prod.fst).Nodup) {s s' : ModuleGraph n × Nat}
    (hs : Derived g root nameFilter s.1)
    (hfold : es.foldlM (visitChild walk nameFilter p (dottedName path)) s = some s') :
    ∃ log, Walked g root nameFilter p s s' log ∧
      (Nested g root nameFilter → (∀ e ∈ es, e ∈ s.1.moduleChildren p) → Fresh s.1 log) := by
  induction es generalizing s with
  | nil =>
      cases hfold
      exact ⟨[], ⟨rfl, rfl, by simp, by simp⟩, fun _ _ => trivial⟩
  | cons e es ih =>
      rw [List.foldlM_cons] at hfold
      obtain ⟨s₁, hvisit, hrest⟩ := Option.bind_eq_some_iff.mp hfold
      rw [List.map_cons, List.nodup_cons] at hnames
      obtain ⟨log, hwalked, hfresh⟩ :=
        visitChild_walked hcons hwalk hopen hpath hs (hes e List.mem_cons_self) hvisit
      obtain ⟨log', hwalked', hfresh'⟩ := ih
        (fun e' he' => hes e' (List.mem_cons_of_mem e he')) hnames.2
        (hwalked.derived hs) hrest
      refine ⟨log ++ log', hwalked.append hwalked', ?_⟩
      intro hnested halive
      obtain ⟨hlog, hapart⟩ := hfresh hnested (halive e List.mem_cons_self)
      refine hlog.append ?_
      rw [← hwalked.graph]
      refine hfresh' hnested ?_
      intro e' he'
      rw [hwalked.graph]
      refine mem_moduleChildren_writes.mpr ⟨halive e' (List.mem_cons_of_mem e he'), ?_⟩
      intro w hw hat
      cases hapart w hw with
      | inl hsame =>
          have hname : e'.1 = e.1 := hat.2.trans hsame.2.symm
          exact hnames.1 (hname ▸ List.mem_map_of_mem he')
      | inr hother => exact hother hat.1.symm

theorem namedChildren_names_nodup (h : ModuleGraph n) (p : Fin n) :
    ((h.namedChildren p).map Prod.fst).Nodup :=
  ((namedChildren_sublist h p).map Prod.fst).nodup (moduleChildren_nodup h p)

/-- What the walk does, from any module that is walked. -/
theorem recurse_walked (hcons : Consistent g root nameFilter) (depth : Nat) :
    WalkSpec g root nameFilter (recurse nameFilter depth) := by
  induction depth with
  | zero =>
      intro p path s s' _ _ _ hwalk
      cases hwalk
  | succ depth ih =>
      intro p path s s' hs hopen hpath hwalk
      have hes : ∀ e ∈ s.1.namedChildren p, e ∈ s.1.moduleChildren p := fun e he =>
        (namedChildren_sublist s.1 p).subset he
      obtain ⟨log, hwalked, hfresh⟩ := foldlM_walked hcons ih hopen hpath
        (fun e he => hs.sub (hes e he)) (namedChildren_names_nodup s.1 p) hs hwalk
      exact ⟨log, hwalked, fun hnested => hfresh hnested hes⟩

/-- A walk that ends has visited each child from a graph the walk can have made, and what was
done after that is a part of the walk too. -/
theorem recurse_visits (hcons : Consistent g root nameFilter) {depth : Nat} {p : Fin n}
    {path : List String} {s s' : ModuleGraph n × Nat} (hs : Derived g root nameFilter s.1)
    (hopen : Open g root nameFilter p) (hpath : g.Reaches root path p)
    (hwalk : recurse nameFilter (depth + 1) p (dottedName path) s = some s')
    {e : String × Fin n} (he : e ∈ s.1.namedChildren p) :
    ∃ s₁ s₂ log, Derived g root nameFilter s₁.1 ∧
      visitChild (recurse nameFilter depth) nameFilter p (dottedName path) s₁ e = some s₂ ∧
      s'.1 = s₂.1.writes log := by
  have hes : ∀ e ∈ s.1.namedChildren p, e ∈ g.moduleChildren p := fun e he =>
    hs.sub ((namedChildren_sublist s.1 p).subset he)
  have hnames := namedChildren_names_nodup s.1 p
  have hfold : (s.1.namedChildren p).foldlM
      (visitChild (recurse nameFilter depth) nameFilter p (dottedName path)) s = some s' := hwalk
  obtain ⟨before, after, hsplit⟩ := List.append_of_mem he
  rw [hsplit] at hes hnames hfold
  rw [List.foldlM_append] at hfold
  obtain ⟨s₁, hbefore, hrest⟩ := Option.bind_eq_some_iff.mp hfold
  rw [List.foldlM_cons] at hrest
  obtain ⟨s₂, hvisit, hafter⟩ := Option.bind_eq_some_iff.mp hrest
  rw [List.map_append, List.map_cons] at hnames
  have hspec := recurse_walked hcons depth
  obtain ⟨log₁, hwalked₁, -⟩ := foldlM_walked hcons hspec hopen hpath
    (fun e he => hes e (List.mem_append_left _ he)) hnames.of_append_left hs hbefore
  have hs₁ := hwalked₁.derived hs
  obtain ⟨log₂, hwalked₂, -⟩ := visitChild_walked hcons hspec hopen hpath hs₁
    (hes e (by simp)) hvisit
  obtain ⟨log₃, hwalked₃, -⟩ := foldlM_walked hcons hspec hopen hpath
    (fun e he => hes e (List.mem_append_right _ (List.mem_cons_of_mem _ he)))
    (List.nodup_cons.mp hnames.of_append_right).2 (hwalked₂.derived hs₁) hafter
  exact ⟨s₁, s₂, log₃, hs₁, hvisit, hwalked₃.graph⟩

/-! ## Where the walk ends -/

/-- No more than `depth` modules lie one under the other below a module, itself included. -/
def Bounded (g : ModuleGraph n) (root : Fin n) (nameFilter : Option String) :
    Nat → Fin n → Prop
  | 0, _ => False
  | depth + 1, p => ∀ m, OpenStep g root nameFilter p m → Bounded g root nameFilter depth m

/-- The walk into a child that is not swapped. -/
theorem visitChild_open (hcons : Consistent g root nameFilter)
    {walk : Fin n → String → ModuleGraph n × Nat → Option (ModuleGraph n × Nat)} {p : Fin n}
    {path : List String} (hpath : g.Reaches root path p) {s : ModuleGraph n × Nat}
    (hs : Derived g root nameFilter s.1) {e : String × Fin n} (he : e ∈ g.moduleChildren p)
    (hlayer : ¬ Matched g root nameFilter e.2) :
    visitChild walk nameFilter p (dottedName path) s e =
      walk e.2 (dottedName (path ++ [e.1])) s := by
  rw [visitChild, if_neg fun h => hlayer ((matched_iff hcons hs hpath he).mp h), dottedName_snoc]

theorem visitChild_matched (hcons : Consistent g root nameFilter)
    {walk : Fin n → String → ModuleGraph n × Nat → Option (ModuleGraph n × Nat)} {p : Fin n}
    {path : List String} (hpath : g.Reaches root path p) {s : ModuleGraph n × Nat}
    (hs : Derived g root nameFilter s.1) {e : String × Fin n} (he : e ∈ g.moduleChildren p)
    (hlayer : Matched g root nameFilter e.2) :
    visitChild walk nameFilter p (dottedName path) s e =
      some (s.1.write ⟨p, e.1, e.2⟩, s.2 + 1) := by
  rw [visitChild, if_pos ((matched_iff hcons hs hpath he).mpr hlayer)]
  rfl

/-- A child that is walked into has a name it is walked into by. -/
theorem OpenStep.named {p m : Fin n} (hstep : OpenStep g root nameFilter p m)
    {h : ModuleGraph n} (hs : Derived g root nameFilter h) :
    ∃ name, (name, m) ∈ h.namedChildren p ∧ (name, m) ∈ g.moduleChildren p := by
  obtain ⟨⟨name, hname⟩, hlayer⟩ := hstep
  obtain ⟨name', hnamed⟩ := exists_namedChild (hs.keep hname hlayer)
  exact ⟨name', hnamed, hs.sub ((namedChildren_sublist h p).subset hnamed)⟩

theorem bounded_of_recurse (hcons : Consistent g root nameFilter) {depth : Nat} {p : Fin n}
    {path : List String} {s s' : ModuleGraph n × Nat} (hs : Derived g root nameFilter s.1)
    (hopen : Open g root nameFilter p) (hpath : g.Reaches root path p)
    (hwalk : recurse nameFilter depth p (dottedName path) s = some s') :
    Bounded g root nameFilter depth p := by
  induction depth generalizing p path s s' with
  | zero => cases hwalk
  | succ depth ih =>
      intro m hstep
      obtain ⟨name, hnamed, hchild⟩ := hstep.named hs
      obtain ⟨s₁, s₂, -, hs₁, hvisit, -⟩ := recurse_visits hcons hs hopen hpath hwalk hnamed
      rw [visitChild_open hcons hpath hs₁ hchild hstep.2] at hvisit
      exact ih hs₁ (hopen.tail hstep) (LabelPath.snoc hpath hchild) hvisit

open Classical in
/-- A walk that ends goes through nested modules. -/
theorem nested_of_bounded {depth : Nat} (hbounded : Bounded g root nameFilter depth root) :
    Nested g root nameFilter := by
  have hall : ∀ p, Open g root nameFilter p → ∃ k, Bounded g root nameFilter k p := by
    intro p hp
    induction hp with
    | refl => exact ⟨depth, hbounded⟩
    | tail _ hstep ih =>
        obtain ⟨k, hk⟩ := ih
        cases k with
        | zero => cases hk
        | succ k => exact ⟨k, hk _ hstep⟩
  refine ⟨fun p => if h : ∃ k, Bounded g root nameFilter k p then Nat.find h else 0, ?_⟩
  intro p m hp hstep
  have hpk := hall p hp
  have hmk := hall m (hp.tail hstep)
  beta_reduce
  rw [dif_pos hpk, dif_pos hmk]
  have hfind := Nat.find_spec hpk
  generalize Nat.find hpk = k at hfind
  cases k with
  | zero => cases hfind
  | succ k => exact Nat.lt_succ_of_le (Nat.find_min' hmk (hfind m hstep))

/-- Through nested modules the walk ends. -/
theorem recurse_of_nested (hcons : Consistent g root nameFilter) {rank : Fin n → Nat}
    (hrank : ∀ p m, Open g root nameFilter p → OpenStep g root nameFilter p m →
      rank m < rank p) {depth : Nat} {p : Fin n} {path : List String}
    {s : ModuleGraph n × Nat} (hs : Derived g root nameFilter s.1)
    (hopen : Open g root nameFilter p) (hpath : g.Reaches root path p)
    (hdepth : rank p < depth) :
    ∃ s', recurse nameFilter depth p (dottedName path) s = some s' := by
  induction depth generalizing p path s with
  | zero => exact absurd hdepth (Nat.not_lt_zero _)
  | succ depth ih =>
      have hspec := recurse_walked hcons depth
      have hloop : ∀ (es : List (String × Fin n)) (s : ModuleGraph n × Nat),
          Derived g root nameFilter s.1 → (∀ e ∈ es, e ∈ g.moduleChildren p) →
            ∃ s', es.foldlM (visitChild (recurse nameFilter depth) nameFilter p
              (dottedName path)) s = some s' := by
        intro es
        induction es with
        | nil => exact fun s _ _ => ⟨s, rfl⟩
        | cons e es ihes =>
            intro s hs hes
            have he := hes e List.mem_cons_self
            have hvisit : ∃ s₁, visitChild (recurse nameFilter depth) nameFilter p
                (dottedName path) s e = some s₁ := by
              by_cases hlayer : Matched g root nameFilter e.2
              · exact ⟨_, visitChild_matched hcons hpath hs he hlayer⟩
              · have hstep : OpenStep g root nameFilter p e.2 := ⟨⟨e.1, he⟩, hlayer⟩
                rw [visitChild_open hcons hpath hs he hlayer]
                refine ih hs (hopen.tail hstep) (LabelPath.snoc hpath he) ?_
                exact (hrank p e.2 hopen hstep).trans_le (Nat.le_of_lt_succ hdepth)
            obtain ⟨s₁, hs₁⟩ := hvisit
            obtain ⟨log, hwalked, -⟩ := visitChild_walked hcons hspec hopen hpath hs he hs₁
            obtain ⟨s₂, hs₂⟩ := ihes s₁ (hwalked.derived hs)
              fun e' he' => hes e' (List.mem_cons_of_mem e he')
            refine ⟨s₂, ?_⟩
            rw [List.foldlM_cons]
            exact Option.bind_eq_some_iff.mpr ⟨s₁, hs₁, hs₂⟩
      exact hloop _ s hs fun e he => hs.sub ((namedChildren_sublist s.1 p).subset he)

/-- A layer with one name in a module below has been taken from it when the walk ends. -/
theorem recurse_takes (hcons : Consistent g root nameFilter) {depth : Nat} {p q : Fin n}
    {path : List String} {s s' : ModuleGraph n × Nat} (hs : Derived g root nameFilter s.1)
    (hopen : Open g root nameFilter p) (hpath : g.Reaches root path p)
    (hwalk : recurse nameFilter depth p (dottedName path) s = some s')
    (hbelow : Relation.ReflTransGen (OpenStep g root nameFilter) p q) {e : String × Fin n}
    (hlayer : Matched g root nameFilter e.2)
    (hsingle : ∀ name, (name, e.2) ∈ g.moduleChildren q → name = e.1) :
    e ∉ s'.1.moduleChildren q := by
  induction depth generalizing p path s s' with
  | zero => cases hwalk
  | succ depth ih =>
      cases Relation.ReflTransGen.cases_head hbelow with
      | inl heq =>
          rw [← heq] at hsingle ⊢
          by_cases halive : e ∈ s.1.moduleChildren p
          · obtain ⟨name, hnamed⟩ := exists_namedChild halive
            have hchild := hs.sub ((namedChildren_sublist s.1 p).subset hnamed)
            have hname : (name, e.2) = e := Prod.ext (hsingle name hchild) rfl
            rw [hname] at hnamed hchild
            obtain ⟨s₁, s₂, log, hs₁, hvisit, hafter⟩ :=
              recurse_visits hcons hs hopen hpath hwalk hnamed
            rw [visitChild_matched hcons hpath hs₁ hchild hlayer] at hvisit
            cases hvisit
            rw [hafter, mem_moduleChildren_writes, mem_moduleChildren_write]
            exact fun h => h.1.2 ⟨rfl, rfl⟩
          · obtain ⟨log, hwalked, -⟩ := recurse_walked hcons _ p path s s' hs hopen hpath hwalk
            rw [hwalked.graph, mem_moduleChildren_writes]
            exact fun h => halive h.1
      | inr hmore =>
          obtain ⟨m, hstep, hbelow'⟩ := hmore
          obtain ⟨name, hnamed, hchild⟩ := hstep.named hs
          obtain ⟨s₁, s₂, log, hs₁, hvisit, hafter⟩ :=
            recurse_visits hcons hs hopen hpath hwalk hnamed
          rw [visitChild_open hcons hpath hs₁ hchild hstep.2] at hvisit
          have htaken := ih hs₁ (hopen.tail hstep) (LabelPath.snoc hpath hchild) hvisit hbelow'
          rw [hafter, mem_moduleChildren_writes]
          exact fun h => htaken h.1

/-! ## What is listed and what is left -/

theorem Reaches.of_derived {h : ModuleGraph n} (hs : Derived g root nameFilter h)
    {path : List String} {m : Fin n} (hpath : h.Reaches root path m) :
    g.Reaches root path m := by
  induction hpath with
  | nil => exact LabelPath.nil
  | snoc _ he ih => exact LabelPath.snoc ih (hs.sub he)

/-- The modules that are walked stay within reach. -/
theorem Open.reaches {p : Fin n} (hopen : Open g root nameFilter p) {h : ModuleGraph n}
    (hs : Derived g root nameFilter h) : ∃ path, h.Reaches root path p := by
  induction hopen with
  | refl => exact ⟨[], LabelPath.nil⟩
  | tail _ hstep ih =>
      obtain ⟨path, hpath⟩ := ih
      obtain ⟨⟨name, hname⟩, hlayer⟩ := hstep
      exact ⟨path ++ [name], LabelPath.snoc hpath (hs.keep hname hlayer)⟩

theorem listed_iff (hcons : Consistent g root nameFilter) {m : Fin n} :
    m ∈ (g.quantizeModuleLinears root nameFilter).map Prod.snd ↔
      Matched g root nameFilter m := by
  rw [List.mem_map]
  constructor
  · rintro ⟨e, he, rfl⟩
    obtain ⟨hnamed, hlinear, hmatch⟩ := mem_quantizeModuleLinears.mp he
    obtain ⟨path, hpath, hname⟩ := mem_namedModules hnamed
    exact ⟨hlinear, path, hpath, hname ▸ hmatch⟩
  · rintro ⟨hlinear, path, hpath, hmatch⟩
    obtain ⟨name, hnamed⟩ := namedModules_complete hpath
    obtain ⟨path', hpath', hname⟩ := mem_namedModules hnamed
    have hmatch' := hcons m path path' hlinear hpath hpath' hmatch
    exact ⟨_, mem_quantizeModuleLinears.mpr ⟨hnamed, hlinear, hname.symm ▸ hmatch'⟩, rfl⟩

/-- Nothing is listed afterwards exactly if the root is no layer to be swapped and no such
layer is left in a module that was walked. -/
theorem nothing_left_iff (hcons : Consistent g root nameFilter) {h : ModuleGraph n}
    (hs : Derived g root nameFilter h) :
    h.quantizeModuleLinears root nameFilter = [] ↔
      ¬ Matched g root nameFilter root ∧
        ∀ p, Open g root nameFilter p → ∀ e ∈ h.moduleChildren p,
          ¬ Matched g root nameFilter e.2 := by
  constructor
  · intro hnone
    have hout : ∀ m path, h.Reaches root path m → ¬ Matched g root nameFilter m := by
      intro m path hpath hlayer
      obtain ⟨name, hnamed⟩ := namedModules_complete hpath
      obtain ⟨path', hpath', hname⟩ := mem_namedModules hnamed
      obtain ⟨hlinear, path'', hpath'', hmatch⟩ := hlayer
      have hmatch' := hcons m path'' path' hlinear hpath'' (hpath'.of_derived hs) hmatch
      have hlisted : (name, m) ∈ h.quantizeModuleLinears root nameFilter :=
        mem_quantizeModuleLinears.mpr ⟨hnamed, hs.isLinear ▸ hlinear, hname.symm ▸ hmatch'⟩
      rw [hnone] at hlisted
      cases hlisted
    refine ⟨hout root [] LabelPath.nil, ?_⟩
    intro p hopen e he
    obtain ⟨path, hpath⟩ := hopen.reaches hs
    exact hout e.2 _ (LabelPath.snoc hpath he)
  · rintro ⟨hroot, hleft⟩
    -- all that is in reach has been walked
    have hwalked : ∀ path m, h.Reaches root path m →
        Open g root nameFilter m ∧ ¬ Matched g root nameFilter m := by
      intro path m hpath
      induction hpath with
      | nil => exact ⟨Relation.ReflTransGen.refl, hroot⟩
      | snoc hpath he ih =>
          have hlayer := hleft _ ih.1 _ he
          exact ⟨ih.1.tail ⟨⟨_, hs.sub he⟩, hlayer⟩, hlayer⟩
    refine List.eq_nil_iff_forall_not_mem.mpr ?_
    intro e he
    obtain ⟨hnamed, hlinear, hmatch⟩ := mem_quantizeModuleLinears.mp he
    obtain ⟨path, hpath, hname⟩ := mem_namedModules hnamed
    refine (hwalked path e.2 hpath).2 ⟨hs.isLinear ▸ hlinear, path, hpath.of_derived hs, ?_⟩
    exact hname ▸ hmatch

/-- A child that the writes take from its place was written there. -/
theorem written_of_gone {log : List (Write n)} (hlog : ∀ w ∈ log, ValidWrite g root nameFilter w)
    {p m : Fin n} {name : String} (hchild : (name, m) ∈ g.moduleChildren p)
    (hgone : (name, m) ∉ (g.writes log).moduleChildren p) :
    ∃ w ∈ log, (w.parent, w.name) = (p, name) ∧ w.linear = m := by
  rw [mem_moduleChildren_writes, not_and] at hgone
  have hwritten := hgone hchild
  push Not at hwritten
  obtain ⟨w, hw, hat⟩ := hwritten
  exact ⟨w, hw, (Prod.ext hat.1 hat.2).symm, (hlog w hw).linear_eq hchild hat⟩

theorem swapped_iff {log : List (Write n)} (hlog : ∀ w ∈ log, ValidWrite g root nameFilter w)
    {m : Fin n} : Swapped g (g.writes log) m ↔ m ∈ log.map Write.linear := by
  rw [List.mem_map]
  constructor
  · rintro ⟨p, name, hchild, hquantized⟩
    have hgone : (name, m) ∉ (g.writes log).moduleChildren p := by
      intro hleft
      have hsame := List.inj_on_of_nodup_map ((g.writes log).names_nodup p)
        (mem_moduleChildren.mp hleft) hquantized rfl
      cases (Prod.mk.inj hsame).2
    obtain ⟨w, hw, -, hlinear⟩ := written_of_gone hlog hchild hgone
    exact ⟨w, hw, hlinear⟩
  · rintro ⟨w, hw, rfl⟩
    have hchild := (hlog w hw).child
    obtain ⟨w', hw', hat, hquantized⟩ := written
      (List.mem_map_of_mem (mem_moduleChildren.mp hchild)) ⟨w, hw, rfl, rfl⟩
    have hlinear : w'.linear = w.linear := (hlog w' hw').linear_eq hchild hat
    exact ⟨w.parent, w.name, hchild, hlinear ▸ hquantized⟩

theorem Fresh.places_nodup {h : ModuleGraph n} {log : List (Write n)} (hlog : Fresh h log) :
    (log.map fun w => (w.parent, w.name)).Nodup := by
  induction log generalizing h with
  | nil => exact List.nodup_nil
  | cons w log ih =>
      rw [List.map_cons, List.nodup_cons]
      refine ⟨?_, ih hlog.2⟩
      intro hmem
      obtain ⟨w', hw', hplace⟩ := List.mem_map.mp hmem
      -- a place that was written has no module left to take
      have halive : ∀ (log : List (Write n)) (h : ModuleGraph n), Fresh h log → w' ∈ log →
          (w'.name, w'.linear) ∈ h.moduleChildren w'.parent := by
        intro log
        induction log with
        | nil => intro _ _ hnil; cases hnil
        | cons w'' log ih' =>
            intro h hfresh hin
            cases List.mem_cons.mp hin with
            | inl heq => exact heq ▸ hfresh.1
            | inr htail => exact (mem_moduleChildren_write.mp (ih' _ hfresh.2 htail)).1
      have hleft := halive log (h.write w) hlog.2 hw'
      obtain ⟨hparent, hname⟩ := Prod.mk.inj hplace
      exact (mem_moduleChildren_write.mp hleft).2 ⟨hparent, hname⟩

/-- Walks that agree leave the layers well placed. -/
theorem wellPlaced_of_walkersAgree (hcons : Consistent g root nameFilter)
    (hagree : WalkersAgree g root nameFilter) : WellPlaced g root nameFilter := by
  have hself : Derived g root nameFilter (g, 0).1 := Derived.self
  have hlistedNodup : ((g.quantizeModuleLinears root nameFilter).map Prod.snd).Nodup :=
    quantizeModuleLinears_nodup
  obtain ⟨depth, g', count, hwalk, hswapped, hcount, hnone⟩ := hagree
  have hnested := nested_of_bounded
    (bounded_of_recurse hcons hself Relation.ReflTransGen.refl LabelPath.nil hwalk)
  obtain ⟨log, hwalked, -⟩ := recurse_walked hcons depth root [] _ _ hself
    Relation.ReflTransGen.refl LabelPath.nil hwalk
  have hg' : g' = g.writes log := hwalked.graph
  have hlength : count = 0 + log.length := hwalked.count
  obtain ⟨hroot, hleft⟩ := (nothing_left_iff hcons (hwalked.derived hself)).mp hnone
  have hlinears : ∀ m, m ∈ log.map Write.linear ↔ Matched g root nameFilter m := by
    intro m
    rw [← swapped_iff hwalked.valid, ← hg', hswapped, listed_iff hcons]
  -- as many writes as layers: no layer was written twice
  have hnodup : (log.map Write.linear).Nodup := by
    have hsub : (g.quantizeModuleLinears root nameFilter).map Prod.snd ⊆
        log.map Write.linear := by
      intro m hm
      exact (hlinears m).mpr ((listed_iff hcons).mp hm)
    have hperm := (List.subperm_of_subset hlistedNodup hsub).perm_of_length_le (by
      rw [List.length_map, List.length_map]
      omega)
    exact hperm.nodup_iff.mp hlistedNodup
  refine ⟨hroot, hnested, ?_⟩
  intro m hlayer
  have hplace : ∀ place : Fin n × String, Open g root nameFilter place.1 →
      (place.2, m) ∈ g.moduleChildren place.1 →
        ∃ w ∈ log, place = (w.parent, w.name) ∧ w.linear = m := by
    intro place hopen hchild
    have hgone : (place.2, m) ∉ (g.writes log).moduleChildren place.1 := fun hin =>
      hleft place.1 hopen _ (hg' ▸ hin) hlayer
    obtain ⟨w, hw, hat, hlinear⟩ := written_of_gone hwalked.valid hchild hgone
    exact ⟨w, hw, hat.symm, hlinear⟩
  obtain ⟨w, hw, hwm⟩ := List.mem_map.mp ((hlinears m).mpr hlayer)
  have hvalid := hwalked.valid w hw
  refine ⟨(w.parent, w.name), ⟨hvalid.walked, hwm ▸ hvalid.child⟩, ?_⟩
  rintro place ⟨hopen, hchild⟩
  obtain ⟨w', hw', rfl, hwm'⟩ := hplace place hopen hchild
  have hsame := List.inj_on_of_nodup_map hnodup hw' hw (hwm'.trans hwm.symm)
  rw [hsame]

/-- The walks agree on layers that are well placed. -/
theorem walkersAgree_of_wellPlaced (hcons : Consistent g root nameFilter)
    (hplaced : WellPlaced g root nameFilter) : WalkersAgree g root nameFilter := by
  have hself : Derived g root nameFilter (g, 0).1 := Derived.self
  have hlistedNodup : ((g.quantizeModuleLinears root nameFilter).map Prod.snd).Nodup :=
    quantizeModuleLinears_nodup
  obtain ⟨rank, hrank⟩ := hplaced.nested
  obtain ⟨s', hwalk⟩ := recurse_of_nested hcons hrank hself Relation.ReflTransGen.refl
    LabelPath.nil (Nat.lt_succ_self (rank root))
  obtain ⟨log, hwalked, hfresh⟩ := recurse_walked hcons _ root [] _ _ hself
    Relation.ReflTransGen.refl LabelPath.nil hwalk
  have hs' : s'.1 = g.writes log := hwalked.graph
  have hlength : s'.2 = 0 + log.length := hwalked.count
  have hgone : ∀ p, Open g root nameFilter p → ∀ e ∈ g.moduleChildren p,
      Matched g root nameFilter e.2 → e ∉ s'.1.moduleChildren p := by
    intro p hopen e he hlayer
    refine recurse_takes hcons hself Relation.ReflTransGen.refl LabelPath.nil hwalk hopen
      hlayer ?_
    intro name hname
    obtain ⟨place, -, hunique⟩ := hplaced.single e.2 hlayer
    have hfirst := hunique (p, name) ⟨hopen, hname⟩
    have hsecond := hunique (p, e.1) ⟨hopen, he⟩
    exact congrArg Prod.snd (hfirst.trans hsecond.symm)
  have hlinears : ∀ m, m ∈ log.map Write.linear ↔ Matched g root nameFilter m := by
    intro m
    constructor
    · intro hm
      obtain ⟨w, hw, rfl⟩ := List.mem_map.mp hm
      exact (hwalked.valid w hw).layer
    · intro hlayer
      obtain ⟨place, ⟨hopen, hchild⟩, -⟩ := hplaced.single m hlayer
      have htaken := hgone place.1 hopen _ hchild hlayer
      rw [hs'] at htaken
      obtain ⟨w, hw, -, hlinear⟩ := written_of_gone hwalked.valid hchild htaken
      exact List.mem_map.mpr ⟨w, hw, hlinear⟩
  have hnodup : (log.map Write.linear).Nodup := by
    refine List.Nodup.map_on ?_ (hfresh hplaced.nested).places_nodup.of_map
    intro w hw w' hw' hlinear
    have hvalid := hwalked.valid w hw
    have hvalid' := hwalked.valid w' hw'
    obtain ⟨place, -, hunique⟩ := hplaced.single w.linear hvalid.layer
    have hfirst := hunique (w.parent, w.name) ⟨hvalid.walked, hvalid.child⟩
    have hsecond := hunique (w'.parent, w'.name) ⟨hvalid'.walked, hlinear ▸ hvalid'.child⟩
    exact List.inj_on_of_nodup_map (hfresh hplaced.nested).places_nodup hw hw'
      (hfirst.trans hsecond.symm)
  refine ⟨_, s'.1, s'.2, hwalk, ?_, ?_, ?_⟩
  · intro m
    rw [hs', swapped_iff hwalked.valid, hlinears, listed_iff hcons]
  · have hperm : (log.map Write.linear).Perm
        ((g.quantizeModuleLinears root nameFilter).map Prod.snd) := by
      refine (List.perm_ext_iff_of_nodup hnodup hlistedNodup).mpr ?_
      intro m
      rw [hlinears, listed_iff hcons]
    have hsame := hperm.length_eq
    rw [List.length_map, List.length_map] at hsame
    omega
  · refine (nothing_left_iff hcons (hwalked.derived hself)).mpr ⟨hplaced.start, ?_⟩
    intro p hopen e he hlayer
    exact hgone p hopen e ((hwalked.derived hself).sub he) hlayer he

/-- Where the filter tells no two names of a layer apart, when the walks agree. -/
theorem walkersAgree_iff (hcons : Consistent g root nameFilter) :
    WalkersAgree g root nameFilter ↔ WellPlaced g root nameFilter :=
  ⟨wellPlaced_of_walkersAgree hcons, walkersAgree_of_wellPlaced hcons⟩

end Walk

/-- Without a filter every name passes. -/
theorem consistent_none (g : ModuleGraph n) (root : Fin n) : Consistent g root none :=
  fun _ _ _ _ _ _ _ => rfl

/-- Where the filter tells no two names of a layer apart, and so always without a filter, the
walks agree exactly if the layers are well placed. -/
theorem walkers_agree (g : ModuleGraph n) (root : Fin n) (nameFilter : Option String) :
    (Consistent g root nameFilter →
      (WalkersAgree g root nameFilter ↔ WellPlaced g root nameFilter)) ∧
    (nameFilter = none → Consistent g root nameFilter) :=
  ⟨walkersAgree_iff, fun hnone => hnone ▸ consistent_none g root⟩

end ModuleGraph

/-! ## Where they agree -/

/-- Two blocks of two layers and one. -/
def blocksChildren : Fin 6 → List (String × Child 6)
  | 0 => [("attn", .module 1), ("mlp", .module 2)]
  | 1 => [("q", .module 3), ("k", .module 4)]
  | 2 => [("fc", .module 5)]
  | _ => []

theorem blocks_nodup (m : Fin 6) : ((blocksChildren m).map Prod.fst).Nodup := by
  fin_cases m
  all_goals decide

theorem blocks_plain (m : Fin 6) :
    ∀ name ∈ (blocksChildren m).map Prod.fst, name ≠ "" ∧ '.' ∉ name.toList := by
  fin_cases m
  all_goals decide

/-- A root with two blocks; the one has two layers, the other one. -/
def blocks : ModuleGraph 6 where
  isLinear m := decide (3 ≤ m)
  children := blocksChildren
  names_nodup := blocks_nodup
  names_plain := blocks_plain

/-- The only path to each module. -/
def blocksPath : Fin 6 → List String
  | 0 => []
  | 1 => ["attn"]
  | 2 => ["mlp"]
  | 3 => ["attn", "q"]
  | 4 => ["attn", "k"]
  | 5 => ["mlp", "fc"]

theorem blocks_path {path : List String} {m : Fin 6} (h : blocks.Reaches 0 path m) :
    path = blocksPath m := by
  have hgrows : ∀ u, ∀ e ∈ blocks.moduleChildren u, blocksPath u ++ [e.1] = blocksPath e.2 := by
    decide
  induction h with
  | nil => rfl
  | snoc _ he ih => rw [ih, hgrows _ _ he]

theorem blocks_reached (m : Fin 6) : blocks.Reaches 0 (blocksPath m) m := by
  have hblock : ∀ name u, (name, u) ∈ blocks.moduleChildren 0 → blocks.Reaches 0 [name] u :=
    fun _ _ h => LabelPath.snoc LabelPath.nil h
  have hlayer : ∀ name u name' m, (name, u) ∈ blocks.moduleChildren 0 →
      (name', m) ∈ blocks.moduleChildren u → blocks.Reaches 0 [name, name'] m :=
    fun _ _ _ _ hu hm => LabelPath.snoc (hblock _ _ hu) hm
  fin_cases m
  · exact LabelPath.nil
  · exact hblock "attn" 1 (by decide)
  · exact hblock "mlp" 2 (by decide)
  · exact hlayer "attn" 1 "q" 3 (by decide) (by decide)
  · exact hlayer "attn" 1 "k" 4 (by decide) (by decide)
  · exact hlayer "mlp" 2 "fc" 5 (by decide) (by decide)

/-- The filter picks the layers of the first block. -/
theorem blocks_matched {m : Fin 6} : blocks.Matched 0 (some "attn") m ↔ m = 3 ∨ m = 4 := by
  have hpicks : ∀ m, blocks.isLinear m = true ∧
      nameMatches (some "attn") (dottedName (blocksPath m)) = true ↔ m = 3 ∨ m = 4 := by
    decide
  rw [← hpicks]
  constructor
  · rintro ⟨hlinear, path, hpath, hname⟩
    exact ⟨hlinear, blocks_path hpath ▸ hname⟩
  · rintro ⟨hlinear, hname⟩
    exact ⟨hlinear, _, blocks_reached m, hname⟩

/-- A filter that takes one block of two: the walks swap and list its two layers. -/
theorem walkers_agree_blocks :
    blocks.WalkersAgree 0 (some "attn") ∧
      (blocks.quantizeModuleLinears 0 (some "attn")).map Prod.snd = [3, 4] := by
  have hcons : blocks.Consistent 0 (some "attn") := by
    intro m path path' _ hpath hpath' hname
    rwa [blocks_path hpath', ← blocks_path hpath]
  refine ⟨((ModuleGraph.walkers_agree blocks 0 (some "attn")).1 hcons).mpr ⟨?_, ?_, ?_⟩, by decide⟩
  · rw [blocks_matched]
    decide
  · refine ⟨fun m => 5 - m, ?_⟩
    rintro p m - ⟨⟨name, hchild⟩, -⟩
    have hdeeper : ∀ p, ∀ e ∈ blocks.moduleChildren p, 5 - e.2.val < 5 - p.val := by decide
    exact hdeeper p _ hchild
  · intro m hmatched
    have hopen : blocks.Open 0 (some "attn") 1 := by
      refine Relation.ReflTransGen.refl.tail ⟨⟨"attn", by decide⟩, ?_⟩
      rw [blocks_matched]
      decide
    have hplaces : ∀ p, ∀ e ∈ blocks.moduleChildren p,
        (e.2 = 3 → (p, e.1) = (1, "q")) ∧ (e.2 = 4 → (p, e.1) = (1, "k")) := by
      decide
    rcases blocks_matched.mp hmatched with rfl | rfl
    · exact ⟨(1, "q"), ⟨hopen, by decide⟩, fun _ hplace => (hplaces _ _ hplace.2).1 rfl⟩
    · exact ⟨(1, "k"), ⟨hopen, by decide⟩, fun _ hplace => (hplaces _ _ hplace.2).2 rfl⟩

/-! ## Where they do not agree -/

/-- Two modules share a layer. -/
def sharedLayerChildren : Fin 4 → List (String × Child 4)
  | 0 => [("a", .module 1), ("b", .module 2)]
  | 1 => [("proj", .module 3)]
  | 2 => [("proj", .module 3)]
  | 3 => []

theorem sharedLayer_nodup (m : Fin 4) : ((sharedLayerChildren m).map Prod.fst).Nodup := by
  fin_cases m
  all_goals decide

theorem sharedLayer_plain (m : Fin 4) :
    ∀ name ∈ (sharedLayerChildren m).map Prod.fst, name ≠ "" ∧ '.' ∉ name.toList := by
  fin_cases m
  all_goals decide

/-- One linear layer under two parents. -/
def sharedLayer : ModuleGraph 4 where
  isLinear m := decide (m = 3)
  children := sharedLayerChildren
  names_nodup := sharedLayer_nodup
  names_plain := sharedLayer_plain

/-- A layer on its own. -/
def loneLayer : ModuleGraph 1 where
  isLinear _ := true
  children _ := []
  names_nodup _ := List.nodup_nil
  names_plain _ _ h := absurd h List.not_mem_nil

/-- A layer that two modules share is swapped in both and listed once; the root is listed and
not swapped. -/
theorem walkers_disagree :
    ¬ sharedLayer.WalkersAgree 0 none ∧ ¬ loneLayer.WalkersAgree 0 none := by
  constructor
  · rw [ModuleGraph.walkersAgree_iff (ModuleGraph.consistent_none _ _)]
    intro hplaced
    have hone : sharedLayer.Reaches 0 ["a"] 1 :=
      LabelPath.snoc LabelPath.nil (show ("a", 1) ∈ sharedLayer.moduleChildren 0 by decide)
    have hlayer : sharedLayer.Matched 0 none 3 :=
      ⟨rfl, ["a", "proj"],
        LabelPath.snoc hone (show ("proj", 3) ∈ sharedLayer.moduleChildren 1 by decide), rfl⟩
    have hopen : ∀ m name, (name, m) ∈ sharedLayer.moduleChildren 0 → m ≠ 3 →
        sharedLayer.Open 0 none m := by
      intro m name hchild hne
      refine Relation.ReflTransGen.refl.tail ⟨⟨name, hchild⟩, fun h => hne ?_⟩
      exact of_decide_eq_true h.1
    obtain ⟨place, -, hunique⟩ := hplaced.single 3 hlayer
    have hfirst := hunique (1, "proj") ⟨hopen 1 "a" (by decide) (by decide), by decide⟩
    have hsecond := hunique (2, "proj") ⟨hopen 2 "b" (by decide) (by decide), by decide⟩
    exact absurd (hfirst.trans hsecond.symm) (by decide)
  · rw [ModuleGraph.walkersAgree_iff (ModuleGraph.consistent_none _ _)]
    intro hplaced
    exact hplaced.start ⟨rfl, [], LabelPath.nil, rfl⟩

end Repercep.Runtime
