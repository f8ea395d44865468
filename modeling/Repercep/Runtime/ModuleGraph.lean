import Mathlib
import Repercep.Foundation.KeyedMap
import Repercep.Foundation.Preorder
set_option autoImplicit false

/-!
# Graphs of modules

A module is an object: it has named children, and it can be the child of several modules or
have several names in one.  `named_modules` names every module once, by the path it is first
met on; `named_children` names every child of a module once.  A dotted name has the path's
names joined.
-/

namespace Repercep.Runtime

open Foundation

/-! ## Modules -/

/-- A child: a module, or the `QuantizedLinearModule` made from one, which has no children. -/
inductive Child (n : Nat) where
  | module (m : Fin n)
  | quantized (linear : Fin n)

/-- The modules of a model.  A name is not empty and has no dot in it. -/
structure ModuleGraph (n : Nat) where
  isLinear : Fin n → Bool
  children : Fin n → List (String × Child n)
  names_nodup : ∀ m, ((children m).map Prod.fst).Nodup
  names_plain : ∀ m, ∀ name ∈ (children m).map Prod.fst, name ≠ "" ∧ '.' ∉ name.toList

/-- A child that is a module. -/
def Child.asModule {n : Nat} : String × Child n → Option (String × Fin n)
  | (name, .module m) => some (name, m)
  | (_, .quantized _) => none

/-- The children of a module under the value given to one name. -/
def setChild {n : Nat} (name : String) (new : Child n) (children : List (String × Child n)) :
    List (String × Child n) :=
  children.map fun c => if c.1 = name then (c.1, new) else c

theorem map_fst_setChild {n : Nat} (name : String) (new : Child n)
    (children : List (String × Child n)) :
    (setChild name new children).map Prod.fst = children.map Prod.fst := by
  rw [setChild, List.map_map]
  apply List.map_congr_left
  intro c _
  rw [Function.comp_apply]
  split
  · rfl
  · rfl

/-- The children of each module after `setattr` on one. -/
def setattrChildren {n : Nat} (children : Fin n → List (String × Child n)) (parent : Fin n)
    (name : String) (new : Child n) (m : Fin n) : List (String × Child n) :=
  if m = parent then setChild name new (children m) else children m

theorem map_fst_setattrChildren {n : Nat} (children : Fin n → List (String × Child n))
    (parent : Fin n) (name : String) (new : Child n) (m : Fin n) :
    (setattrChildren children parent name new m).map Prod.fst = (children m).map Prod.fst := by
  rw [setattrChildren]
  split
  · exact map_fst_setChild name new (children m)
  · rfl

theorem setattr_nodup {n : Nat} (g : ModuleGraph n) (parent : Fin n) (name : String)
    (new : Child n) (m : Fin n) :
    ((setattrChildren g.children parent name new m).map Prod.fst).Nodup := by
  rw [map_fst_setattrChildren]
  exact g.names_nodup m

theorem setattr_plain {n : Nat} (g : ModuleGraph n) (parent : Fin n) (name : String)
    (new : Child n) (m : Fin n) :
    ∀ name' ∈ (setattrChildren g.children parent name new m).map Prod.fst,
      name' ≠ "" ∧ '.' ∉ name'.toList := by
  rw [map_fst_setattrChildren]
  exact g.names_plain m

namespace ModuleGraph

variable {n : Nat}

/-- `setattr(parent, name, new)`, of a name the parent has. -/
def setattr (g : ModuleGraph n) (parent : Fin n) (name : String) (new : Child n) :
    ModuleGraph n where
  isLinear := g.isLinear
  children := setattrChildren g.children parent name new
  names_nodup := setattr_nodup g parent name new
  names_plain := setattr_plain g parent name new

/-- The children of a module, under all their names. -/
def moduleChildren (g : ModuleGraph n) (m : Fin n) : List (String × Fin n) :=
  (g.children m).filterMap Child.asModule

/-- The first name of each of the modules that are not in `memo`. -/
def firstNames (memo : List (Fin n)) : List (String × Fin n) → List (String × Fin n)
  | [] => []
  | e :: es => if e.2 ∈ memo then firstNames memo es else e :: firstNames (e.2 :: memo) es

/-- `named_children`, as far as they can be walked into. -/
def namedChildren (g : ModuleGraph n) (m : Fin n) : List (String × Fin n) :=
  firstNames [] (g.moduleChildren m)

end ModuleGraph

/-- The dotted name of a child. -/
def dotted (pre child : String) : String :=
  if pre = "" then child else pre ++ "." ++ child

/-- The name of a path, as `named_modules` builds it. -/
def dottedName (path : List String) : String :=
  path.foldl dotted ""

/-- `name_filter is None or name_filter in name` -/
def nameMatches : Option String → String → Bool
  | none, _ => true
  | some nameFilter, name => decide (nameFilter.toList <:+: name.toList)

namespace ModuleGraph

variable {n : Nat}

/-- `named_modules` -/
def namedModules (g : ModuleGraph n) (root : Fin n) : List (String × Fin n) :=
  (preorderFrom g.moduleChildren root).map fun e => (dottedName e.1, e.2)

/-- `quantize_module_linears`: the names, each with the layer whose weights are quantised. -/
def quantizeModuleLinears (g : ModuleGraph n) (root : Fin n) (nameFilter : Option String) :
    List (String × Fin n) :=
  ((g.namedModules root).filter fun e => g.isLinear e.2 && nameMatches nameFilter e.1).foldl
    (fun out e => assignEntry e.1 e.2 out) []

/-! ## Children -/

theorem mem_moduleChildren {g : ModuleGraph n} {m : Fin n} {e : String × Fin n} :
    e ∈ g.moduleChildren m ↔ (e.1, Child.module e.2) ∈ g.children m := by
  rw [moduleChildren, List.mem_filterMap]
  constructor
  · rintro ⟨⟨name, child⟩, hmem, hchild⟩
    cases child with
    | module m' =>
        cases hchild
        exact hmem
    | quantized linear => cases hchild
  · intro hmem
    exact ⟨_, hmem, rfl⟩

theorem moduleChildren_nodup (g : ModuleGraph n) (m : Fin n) :
    ((g.moduleChildren m).map Prod.fst).Nodup := by
  have hsub : ∀ l : List (String × Child n),
      ((l.filterMap Child.asModule).map Prod.fst).Sublist (l.map Prod.fst) := by
    intro l
    induction l with
    | nil => exact List.Sublist.slnil
    | cons c l ih =>
        obtain ⟨name, child⟩ := c
        cases child with
        | module m => exact ih.cons_cons name
        | quantized linear => exact ih.cons name
  exact (hsub (g.children m)).nodup (g.names_nodup m)

theorem moduleChildren_plain {g : ModuleGraph n} {m : Fin n} {e : String × Fin n}
    (he : e ∈ g.moduleChildren m) : e.1 ≠ "" ∧ '.' ∉ e.1.toList :=
  g.names_plain m e.1 (List.mem_map_of_mem (mem_moduleChildren.mp he))

theorem firstNames_sublist (memo : List (Fin n)) (es : List (String × Fin n)) :
    (firstNames memo es).Sublist es := by
  induction es generalizing memo with
  | nil => exact List.Sublist.slnil
  | cons e es ih =>
      rw [firstNames]
      split
      · exact (ih memo).cons e
      · exact (ih (e.2 :: memo)).cons_cons e

/-- Every module that is left has a first name. -/
theorem exists_firstName {memo : List (Fin n)} {es : List (String × Fin n)} {e : String × Fin n}
    (he : e ∈ es) (hmemo : e.2 ∉ memo) : ∃ name, (name, e.2) ∈ firstNames memo es := by
  induction es generalizing memo with
  | nil => cases he
  | cons e' es ih =>
      rw [firstNames]
      split
      · next hseen =>
          refine ih ((List.mem_cons.mp he).resolve_left ?_) hmemo
          intro heq
          exact hmemo (heq ▸ hseen)
      · by_cases hsame : e.2 = e'.2
        · rw [hsame]
          exact ⟨e'.1, List.mem_cons_self⟩
        · have htail : e ∈ es := (List.mem_cons.mp he).resolve_left fun heq =>
            hsame (congrArg Prod.snd heq)
          have hfresh : e.2 ∉ e'.2 :: memo := by
            rw [List.mem_cons, not_or]
            exact ⟨hsame, hmemo⟩
          obtain ⟨name, hname⟩ := ih htail hfresh
          exact ⟨name, List.mem_cons_of_mem e' hname⟩

theorem namedChildren_sublist (g : ModuleGraph n) (m : Fin n) :
    (g.namedChildren m).Sublist (g.moduleChildren m) :=
  firstNames_sublist [] _

theorem exists_namedChild {g : ModuleGraph n} {m : Fin n} {e : String × Fin n}
    (he : e ∈ g.moduleChildren m) : ∃ name, (name, e.2) ∈ g.namedChildren m :=
  exists_firstName he List.not_mem_nil

/-! ## Dotted names -/

theorem dottedName_snoc (path : List String) (name : String) :
    dottedName (path ++ [name]) = dotted (dottedName path) name := by
  rw [dottedName, List.foldl_append, List.foldl_cons, List.foldl_nil, dottedName]

/-- Before the last dot and after it. -/
theorem last_dot_unique {a b x y : List Char} (ha : '.' ∉ a) (hb : '.' ∉ b)
    (h : x ++ '.' :: a = y ++ '.' :: b) : x = y ∧ a = b := by
  have hrev : a.reverse ++ '.' :: x.reverse = b.reverse ++ '.' :: y.reverse := by
    have hcongr := congrArg List.reverse h
    simpa using hcongr
  have ha' : '.' ∉ a.reverse := by simpa using ha
  have hb' : '.' ∉ b.reverse := by simpa using hb
  have hboth : ∀ {s t u v : List Char}, '.' ∉ s → '.' ∉ t → s ++ '.' :: u = t ++ '.' :: v →
      s = t ∧ u = v := by
    intro s t u v hs ht heq
    induction s generalizing t with
    | nil =>
        cases t with
        | nil => exact ⟨rfl, (List.cons.inj heq).2⟩
        | cons c t => exact absurd ((List.cons.inj heq).1 ▸ List.mem_cons_self) ht
    | cons c s ih =>
        cases t with
        | nil => exact absurd ((List.cons.inj heq).1 ▸ List.mem_cons_self) hs
        | cons d t =>
            obtain ⟨hhead, htail⟩ := List.cons.inj heq
            obtain ⟨hst, huv⟩ := ih (fun h => hs (List.mem_cons_of_mem c h))
              (fun h => ht (List.mem_cons_of_mem d h)) htail
            exact ⟨by rw [hhead, hst], huv⟩
  obtain ⟨hab, hxy⟩ := hboth ha' hb' hrev
  exact ⟨List.reverse_injective hxy, List.reverse_injective hab⟩

theorem dotted_toList {pre name : String} (hpre : pre ≠ "") :
    (dotted pre name).toList = pre.toList ++ '.' :: name.toList := by
  rw [dotted, if_neg hpre]
  simp

theorem dotted_ne_empty {pre name : String} (hname : name ≠ "") : dotted pre name ≠ "" := by
  rw [dotted]
  split
  · exact hname
  · intro h
    have htoList := congrArg String.toList h
    simp at htoList

/-- A path's names can be read off its dotted name. -/
theorem dottedName_injective {path path' : List String}
    (hplain : ∀ name ∈ path, name ≠ "" ∧ '.' ∉ name.toList)
    (hplain' : ∀ name ∈ path', name ≠ "" ∧ '.' ∉ name.toList)
    (h : dottedName path = dottedName path') : path = path' := by
  induction path using List.reverseRecOn generalizing path' with
  | nil =>
      cases path' using List.reverseRecOn with
      | nil => rfl
      | append_singleton path' name' =>
          rw [dottedName_snoc] at h
          exact absurd h.symm (dotted_ne_empty (hplain' name' (by simp)).1)
  | append_singleton path name ih =>
      cases path' using List.reverseRecOn with
      | nil =>
          rw [dottedName_snoc] at h
          exact absurd h (dotted_ne_empty (hplain name (by simp)).1)
      | append_singleton path' name' =>
          rw [dottedName_snoc, dottedName_snoc] at h
          have hname := hplain name (by simp)
          have hname' := hplain' name' (by simp)
          have hsplit : dottedName path = dottedName path' ∧ name = name' := by
            by_cases hpre : dottedName path = ""
            · by_cases hpre' : dottedName path' = ""
              · rw [dotted, dotted, if_pos hpre, if_pos hpre'] at h
                exact ⟨hpre.trans hpre'.symm, h⟩
              · have htoList := congrArg String.toList h
                rw [dotted_toList hpre', dotted, if_pos hpre] at htoList
                exact absurd (htoList ▸ (by simp : '.' ∈ _ ++ '.' :: name'.toList)) hname.2
            · by_cases hpre' : dottedName path' = ""
              · have htoList := congrArg String.toList h
                rw [dotted_toList hpre, dotted, if_pos hpre'] at htoList
                exact absurd (htoList ▸ (by simp : '.' ∈ _ ++ '.' :: name.toList)) hname'.2
              · have htoList := congrArg String.toList h
                rw [dotted_toList hpre, dotted_toList hpre'] at htoList
                obtain ⟨hinit, hlast⟩ := last_dot_unique hname.2 hname'.2 htoList
                exact ⟨String.toList_injective hinit, String.toList_injective hlast⟩
          rw [ih (fun nm hnm => hplain nm (List.mem_append_left _ hnm))
            (fun nm hnm => hplain' nm (List.mem_append_left _ hnm)) hsplit.1, hsplit.2]

/-! ## What is listed -/

variable {g : ModuleGraph n} {root : Fin n} {nameFilter : Option String}

/-- A path of the graph from its root. -/
def Reaches (g : ModuleGraph n) (root : Fin n) (path : List String) (m : Fin n) : Prop :=
  LabelPath g.moduleChildren root path m

theorem Reaches.plain {path : List String} {m : Fin n} (h : g.Reaches root path m) :
    ∀ name ∈ path, name ≠ "" ∧ '.' ∉ name.toList := by
  induction h with
  | nil => simp
  | snoc hpath he ih =>
      intro name hname
      cases List.mem_append.mp hname with
      | inl h => exact ih name h
      | inr h =>
          rw [List.mem_singleton.mp h]
          exact moduleChildren_plain he

/-- A dotted name says which module is meant. -/
theorem Reaches.unique {path path' : List String} {m m' : Fin n} (h : g.Reaches root path m)
    (h' : g.Reaches root path' m') (hname : dottedName path = dottedName path') : m = m' := by
  have hpath := dottedName_injective h.plain h'.plain hname
  rw [hpath] at h
  exact LabelPath.unique g.moduleChildren_nodup h h'

theorem mem_namedModules {e : String × Fin n} (he : e ∈ g.namedModules root) :
    ∃ path, g.Reaches root path e.2 ∧ e.1 = dottedName path := by
  obtain ⟨e', he', rfl⟩ := List.mem_map.mp he
  exact ⟨e'.1, preorderFrom_path he', rfl⟩

theorem namedModules_complete {path : List String} {m : Fin n} (h : g.Reaches root path m) :
    ∃ name, (name, m) ∈ g.namedModules root := by
  obtain ⟨e, he, hm⟩ := List.mem_map.mp (preorderFrom_complete h)
  exact ⟨dottedName e.1, List.mem_map.mpr ⟨e, he, by rw [hm]⟩⟩

theorem namedModules_nodup (g : ModuleGraph n) (root : Fin n) :
    ((g.namedModules root).map Prod.snd).Nodup := by
  rw [namedModules, List.map_map]
  exact preorderFrom_nodup

theorem namedModules_names_nodup (g : ModuleGraph n) (root : Fin n) :
    ((g.namedModules root).map Prod.fst).Nodup := by
  refine List.Nodup.map_on ?_ (namedModules_nodup g root).of_map
  intro e he e' he' hname
  obtain ⟨path, hpath, hdotted⟩ := mem_namedModules he
  obtain ⟨path', hpath', hdotted'⟩ := mem_namedModules he'
  exact Prod.ext hname (hpath.unique hpath' (hdotted ▸ hdotted' ▸ hname))

/-- No name is assigned twice: what is listed is what passes the filter. -/
theorem quantizeModuleLinears_eq :
    g.quantizeModuleLinears root nameFilter =
      (g.namedModules root).filter fun e => g.isLinear e.2 && nameMatches nameFilter e.1 := by
  have hassign : ∀ (l out : List (String × Fin n)), ((out ++ l).map Prod.fst).Nodup →
      l.foldl (fun out e => assignEntry e.1 e.2 out) out = out ++ l := by
    intro l
    induction l with
    | nil => simp
    | cons e l ih =>
        intro out hnodup
        have habsent : e.1 ∉ out.map Prod.fst := by
          rw [List.map_append, List.map_cons] at hnodup
          intro hmem
          exact List.disjoint_of_nodup_append hnodup hmem List.mem_cons_self
        rw [List.foldl_cons, assignEntry_of_absent habsent, ih, List.append_assoc,
          List.singleton_append]
        rwa [List.append_assoc, List.singleton_append]
  rw [quantizeModuleLinears, hassign, List.nil_append]
  rw [List.nil_append]
  exact (List.filter_sublist.map Prod.fst).nodup (namedModules_names_nodup g root)

theorem mem_quantizeModuleLinears {e : String × Fin n} :
    e ∈ g.quantizeModuleLinears root nameFilter ↔
      e ∈ g.namedModules root ∧ g.isLinear e.2 = true ∧ nameMatches nameFilter e.1 = true := by
  rw [quantizeModuleLinears_eq, List.mem_filter, Bool.and_eq_true]

theorem quantizeModuleLinears_nodup :
    ((g.quantizeModuleLinears root nameFilter).map Prod.snd).Nodup := by
  rw [quantizeModuleLinears_eq]
  exact (List.filter_sublist.map Prod.snd).nodup (namedModules_nodup g root)

end ModuleGraph

end Repercep.Runtime
