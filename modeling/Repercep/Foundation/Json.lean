import Mathlib.Data.List.Induction
import Mathlib.Data.List.Nodup
import Repercep.Foundation.KeyedMap
set_option autoImplicit false

/-!
# JSON documents

Trees of JSON values over any kind of number: the literals of a text, the numbers a program
makes of them, the decimal values they stand for.  The members of an object keep the order
and the repetitions of the text.  What a document says is what it shows at each of its
paths, where the last of several members of one name counts.
-/

namespace Repercep.Foundation

/-- A UTF-16 code unit.  A pair of escaped surrogates and the character it stands for are
the same two units. -/
abbrev CodeUnit : Type := Fin 65536

/-- The text of a JSON string. -/
abbrev Units : Type := List CodeUnit

/-- A JSON value with numbers in `N`. -/
inductive JsonTree (N : Type) where
  | null
  | bool (b : Bool)
  | num (x : N)
  | str (s : Units)
  | arr (items : List (JsonTree N))
  | obj (members : List (Units × JsonTree N))

/-- The last of the values of a name. -/
def lastValue {β : Type} (k : Units) : List (Units × β) → Option β
  | [] => none
  | m :: ms =>
      match lastValue k ms with
      | some v => some v
      | none => if m.1 = k then some m.2 else none

/-- The members as the entries of a dict: each name where it first stands, with its last
value. -/
def dictOf {β : Type} (members : List (Units × β)) : List (Units × β) :=
  members.foldl (fun d m => assignEntry m.1 m.2 d) []

section Members

variable {β γ : Type}

theorem lastValue_cons (k : Units) (m : Units × β) (l : List (Units × β)) :
    lastValue k (m :: l) =
      match lastValue k l with
      | some v => some v
      | none => if m.1 = k then some m.2 else none := rfl

theorem lastValue_append (k : Units) (l₁ l₂ : List (Units × β)) :
    lastValue k (l₁ ++ l₂) = (lastValue k l₂).or (lastValue k l₁) := by
  induction l₁ with
  | nil => simp [lastValue]
  | cons m l₁ ih =>
      rw [List.cons_append, lastValue_cons, ih, lastValue_cons]
      cases lastValue k l₂ with
      | some v => simp
      | none => cases lastValue k l₁ <;> simp

theorem lastValue_map (f : β → γ) (k : Units) (l : List (Units × β)) :
    lastValue k (l.map fun m => (m.1, f m.2)) = (lastValue k l).map f := by
  induction l with
  | nil => rfl
  | cons m l ih =>
      rw [List.map_cons, lastValue_cons, ih, lastValue_cons]
      cases lastValue k l with
      | some v => rfl
      | none => by_cases hm : m.1 = k <;> simp [hm]

theorem mem_of_lastValue {k : Units} {l : List (Units × β)} {v : β}
    (h : lastValue k l = some v) : (k, v) ∈ l := by
  induction l with
  | nil => cases h
  | cons m l ih =>
      rw [lastValue_cons] at h
      cases hrest : lastValue k l with
      | some w =>
          simp only [hrest, Option.some.injEq] at h
          exact List.mem_cons_of_mem m (ih (by rw [hrest, h]))
      | none =>
          simp only [hrest] at h
          split at h
          · next hm =>
              cases h
              rw [← hm]
              exact List.mem_cons_self
          · cases h

theorem lastValue_eq_none {k : Units} {l : List (Units × β)} (h : k ∉ l.map Prod.fst) :
    lastValue k l = none := by
  cases hvalue : lastValue k l with
  | none => rfl
  | some v => exact absurd (List.mem_map_of_mem (f := Prod.fst) (mem_of_lastValue hvalue)) h

/-- With distinct names every value is the last of its name. -/
theorem lastValue_of_mem {l : List (Units × β)} (h : (l.map Prod.fst).Nodup) {k : Units}
    {v : β} (hmem : (k, v) ∈ l) : lastValue k l = some v := by
  induction l with
  | nil => cases hmem
  | cons m l ih =>
      rw [List.map_cons, List.nodup_cons] at h
      rw [lastValue_cons]
      rcases List.mem_cons.mp hmem with rfl | hmem
      · rw [lastValue_eq_none h.1]
        simp
      · rw [ih h.2 hmem]

/-- The values of a dict are those that its keys have. -/
theorem forall_values {l : List (Units × β)} (h : (l.map Prod.fst).Nodup) {P : β → Prop} :
    (∀ m ∈ l, P m.2) ↔ ∀ k v, lastValue k l = some v → P v :=
  ⟨fun hall k v hlast => hall (k, v) (mem_of_lastValue hlast),
    fun hall m hm => hall m.1 m.2 (lastValue_of_mem h hm)⟩

theorem lastValue_assignEntry {l : List (Units × β)} (h : (l.map Prod.fst).Nodup)
    (j k : Units) (v : β) :
    lastValue j (assignEntry k v l) = if j = k then some v else lastValue j l := by
  induction l with
  | nil => simp [assignEntry, lastValue, eq_comm]
  | cons m l ih =>
      rw [List.map_cons, List.nodup_cons] at h
      rw [assignEntry_cons]
      by_cases hm : m.1 = k
      · rw [if_pos hm, lastValue_cons, lastValue_cons]
        by_cases hj : j = k
        · rw [if_pos hj, hj, ← hm, lastValue_eq_none h.1]
          simp
        · have hne : ¬ k = j := fun heq => hj heq.symm
          simp [hj, hm, hne]
      · rw [if_neg hm, lastValue_cons, ih h.2, lastValue_cons]
        by_cases hj : j = k
        · simp [hj]
        · simp [hj]

theorem dictOf_append_singleton (members : List (Units × β)) (m : Units × β) :
    dictOf (members ++ [m]) = assignEntry m.1 m.2 (dictOf members) := by
  rw [dictOf, List.foldl_append]
  rfl

theorem dictOf_map (f : β → γ) (members : List (Units × β)) :
    dictOf (members.map fun m => (m.1, f m.2)) = (dictOf members).map fun m => (m.1, f m.2) := by
  induction members using List.reverseRec with
  | nil => rfl
  | append_singleton members m ih =>
      rw [List.map_append, List.map_singleton, dictOf_append_singleton, ih,
        dictOf_append_singleton]
      exact assignEntry_map f

theorem nodup_dictOf (members : List (Units × β)) :
    ((dictOf members).map Prod.fst).Nodup := by
  induction members using List.reverseRec with
  | nil => exact List.nodup_nil
  | append_singleton members m ih =>
      rw [dictOf_append_singleton]
      exact nodup_assignEntry ih

/-- Members with different names are the entries of their dict. -/
theorem dictOf_of_nodup {members : List (Units × β)} (h : (members.map Prod.fst).Nodup) :
    dictOf members = members := by
  induction members using List.reverseRec with
  | nil => rfl
  | append_singleton members m ih =>
      rw [List.map_append, List.nodup_append] at h
      obtain ⟨hnodup, -, hdisjoint⟩ := h
      rw [dictOf_append_singleton, ih hnodup, assignEntry_of_absent]
      intro hmem
      exact hdisjoint m.1 hmem m.1 List.mem_cons_self rfl

/-- A dict holds of each name its last value. -/
theorem lastValue_dictOf (k : Units) (members : List (Units × β)) :
    lastValue k (dictOf members) = lastValue k members := by
  induction members using List.reverseRec with
  | nil => rfl
  | append_singleton members m ih =>
      rw [dictOf_append_singleton, lastValue_assignEntry (nodup_dictOf members), ih,
        lastValue_append]
      by_cases hk : k = m.1
      · simp [lastValue, hk]
      · have hne : ¬ m.1 = k := fun heq => hk heq.symm
        simp [lastValue, hk, hne]

end Members

namespace JsonTree

variable {N M K : Type}

/-- Induction over a tree: the items of an array and the values of an object by
hypothesis. -/
@[elab_as_elim, induction_eliminator]
theorem ind {P : JsonTree N → Prop} (null : P .null) (bool : ∀ b, P (.bool b))
    (num : ∀ x, P (.num x)) (str : ∀ s, P (.str s))
    (arr : ∀ items, (∀ t ∈ items, P t) → P (.arr items))
    (obj : ∀ members, (∀ m ∈ members, P m.2) → P (.obj members)) : ∀ t, P t :=
  @JsonTree.rec N P (fun items => ∀ t ∈ items, P t) (fun members => ∀ m ∈ members, P m.2)
    (fun m => P m.2) null bool num str arr obj
    (fun _ h => nomatch h) (fun _ _ ht hts _ h => (List.mem_cons.mp h).elim (· ▸ ht) (hts _))
    (fun _ h => nomatch h) (fun _ _ hm hms _ h => (List.mem_cons.mp h).elim (· ▸ hm) (hms _))
    (fun _ _ h => h)

/-! ## Functions of a tree -/

mutual

/-- The tree with its numbers changed. -/
def map (f : N → M) : JsonTree N → JsonTree M
  | .null => .null
  | .bool b => .bool b
  | .num x => .num (f x)
  | .str s => .str s
  | .arr items => .arr (mapItems f items)
  | .obj members => .obj (mapMembers f members)

/-- `map`, on the items of an array. -/
def mapItems (f : N → M) : List (JsonTree N) → List (JsonTree M)
  | [] => []
  | t :: ts => t.map f :: mapItems f ts

/-- `map`, on the members of an object. -/
def mapMembers (f : N → M) : List (Units × JsonTree N) → List (Units × JsonTree M)
  | [] => []
  | (k, t) :: ms => (k, t.map f) :: mapMembers f ms

end

mutual

/-- The tree with every object made a dict. -/
def resolve : JsonTree N → JsonTree N
  | .null => .null
  | .bool b => .bool b
  | .num x => .num x
  | .str s => .str s
  | .arr items => .arr (resolveItems items)
  | .obj members => .obj (dictOf (resolveMembers members))

/-- `resolve`, on the items of an array. -/
def resolveItems : List (JsonTree N) → List (JsonTree N)
  | [] => []
  | t :: ts => t.resolve :: resolveItems ts

/-- `resolve`, on the values of the members of an object. -/
def resolveMembers : List (Units × JsonTree N) → List (Units × JsonTree N)
  | [] => []
  | (k, t) :: ms => (k, t.resolve) :: resolveMembers ms

end

mutual

/-- The numbers of the tree, in order. -/
def nums : JsonTree N → List N
  | .null => []
  | .bool _ => []
  | .num x => [x]
  | .str _ => []
  | .arr items => numsItems items
  | .obj members => numsMembers members

/-- The numbers of the items of an array. -/
def numsItems : List (JsonTree N) → List N
  | [] => []
  | t :: ts => t.nums ++ numsItems ts

/-- The numbers of the members of an object. -/
def numsMembers : List (Units × JsonTree N) → List N
  | [] => []
  | (_, t) :: ms => t.nums ++ numsMembers ms

end

mutual

/-- The names and strings of the tree. -/
def texts : JsonTree N → List Units
  | .null => []
  | .bool _ => []
  | .num _ => []
  | .str s => [s]
  | .arr items => textsItems items
  | .obj members => textsMembers members

/-- The strings of the items of an array. -/
def textsItems : List (JsonTree N) → List Units
  | [] => []
  | t :: ts => t.texts ++ textsItems ts

/-- The strings of the members of an object, names and values. -/
def textsMembers : List (Units × JsonTree N) → List Units
  | [] => []
  | (k, t) :: ms => k :: (t.texts ++ textsMembers ms)

end

mutual

/-- How deeply arrays and objects are nested in the tree. -/
def depth : JsonTree N → Nat
  | .null => 0
  | .bool _ => 0
  | .num _ => 0
  | .str _ => 0
  | .arr items => depthItems items + 1
  | .obj members => depthMembers members + 1

/-- How deep the deepest item nests. -/
def depthItems : List (JsonTree N) → Nat
  | [] => 0
  | t :: ts => max t.depth (depthItems ts)

/-- How deep the deepest member nests. -/
def depthMembers : List (Units × JsonTree N) → Nat
  | [] => 0
  | (_, t) :: ms => max t.depth (depthMembers ms)

end

@[simp] theorem mapItems_eq (f : N → M) (items : List (JsonTree N)) :
    mapItems f items = items.map (map f) := by
  induction items with
  | nil => rfl
  | cons t ts ih => exact congrArg (t.map f :: ·) ih

@[simp] theorem mapMembers_eq (f : N → M) (members : List (Units × JsonTree N)) :
    mapMembers f members = members.map fun m => (m.1, m.2.map f) := by
  induction members with
  | nil => rfl
  | cons m ms ih => exact congrArg ((m.1, m.2.map f) :: ·) ih

@[simp] theorem resolveItems_eq (items : List (JsonTree N)) :
    resolveItems items = items.map resolve := by
  induction items with
  | nil => rfl
  | cons t ts ih => exact congrArg (t.resolve :: ·) ih

@[simp] theorem resolveMembers_eq (members : List (Units × JsonTree N)) :
    resolveMembers members = members.map fun m => (m.1, m.2.resolve) := by
  induction members with
  | nil => rfl
  | cons m ms ih => exact congrArg ((m.1, m.2.resolve) :: ·) ih

@[simp] theorem numsItems_eq (items : List (JsonTree N)) :
    numsItems items = items.flatMap nums := by
  induction items with
  | nil => rfl
  | cons t ts ih => exact congrArg (t.nums ++ ·) ih

@[simp] theorem numsMembers_eq (members : List (Units × JsonTree N)) :
    numsMembers members = members.flatMap fun m => m.2.nums := by
  induction members with
  | nil => rfl
  | cons m ms ih => exact congrArg (m.2.nums ++ ·) ih

theorem map_arr (f : N → M) (items : List (JsonTree N)) :
    (arr items).map f = arr (items.map (map f)) :=
  congrArg arr (mapItems_eq f items)

theorem map_obj (f : N → M) (members : List (Units × JsonTree N)) :
    (obj members).map f = obj (members.map fun m => (m.1, m.2.map f)) :=
  congrArg obj (mapMembers_eq f members)

theorem resolve_arr (items : List (JsonTree N)) :
    (arr items).resolve = arr (items.map resolve) :=
  congrArg arr (resolveItems_eq items)

theorem resolve_obj (members : List (Units × JsonTree N)) :
    (obj members).resolve = obj (dictOf (members.map fun m => (m.1, m.2.resolve))) :=
  congrArg (fun ms => obj (dictOf ms)) (resolveMembers_eq members)

theorem nums_arr (items : List (JsonTree N)) : (arr items).nums = items.flatMap nums :=
  numsItems_eq items

theorem nums_obj (members : List (Units × JsonTree N)) :
    (obj members).nums = members.flatMap fun m => m.2.nums :=
  numsMembers_eq members

theorem map_map (f : N → M) (g : M → K) (t : JsonTree N) : (t.map f).map g = t.map (g ∘ f) := by
  induction t with
  | null => rfl
  | bool b => rfl
  | num x => rfl
  | str s => rfl
  | arr items ih =>
      simp only [map_arr, List.map_map]
      exact congrArg arr (List.map_congr_left ih)
  | obj members ih =>
      simp only [map_obj, List.map_map]
      refine congrArg obj (List.map_congr_left fun m hm => ?_)
      exact congrArg (Prod.mk m.1) (ih m hm)

theorem nums_map (f : N → M) (t : JsonTree N) : (t.map f).nums = t.nums.map f := by
  induction t with
  | null => rfl
  | bool b => rfl
  | num x => rfl
  | str s => rfl
  | arr items ih =>
      simp only [map_arr, nums_arr, List.flatMap_map, List.map_flatMap]
      exact List.flatMap_congr ih
  | obj members ih =>
      simp only [map_obj, nums_obj, List.flatMap_map, List.map_flatMap]
      exact List.flatMap_congr ih

theorem textsItems_congr {items : List (JsonTree N)} {g : JsonTree N → JsonTree M}
    (h : ∀ t ∈ items, (g t).texts = t.texts) : textsItems (items.map g) = textsItems items := by
  induction items with
  | nil => rfl
  | cons t ts ih =>
      rw [List.map_cons, textsItems, textsItems, h t List.mem_cons_self,
        ih fun u hu => h u (List.mem_cons_of_mem t hu)]

theorem textsMembers_congr {members : List (Units × JsonTree N)} {g : JsonTree N → JsonTree M}
    (h : ∀ m ∈ members, (g m.2).texts = m.2.texts) :
    textsMembers (members.map fun m => (m.1, g m.2)) = textsMembers members := by
  induction members with
  | nil => rfl
  | cons m ms ih =>
      rw [List.map_cons, textsMembers, textsMembers, h m List.mem_cons_self,
        ih fun u hu => h u (List.mem_cons_of_mem m hu)]

theorem texts_map (f : N → M) (t : JsonTree N) : (t.map f).texts = t.texts := by
  induction t with
  | null => rfl
  | bool b => rfl
  | num x => rfl
  | str s => rfl
  | arr items ih =>
      rw [map_arr]
      exact textsItems_congr ih
  | obj members ih =>
      rw [map_obj]
      exact textsMembers_congr ih

theorem depthItems_congr {items : List (JsonTree N)} {g : JsonTree N → JsonTree M}
    (h : ∀ t ∈ items, (g t).depth = t.depth) : depthItems (items.map g) = depthItems items := by
  induction items with
  | nil => rfl
  | cons t ts ih =>
      rw [List.map_cons, depthItems, depthItems, h t List.mem_cons_self,
        ih fun u hu => h u (List.mem_cons_of_mem t hu)]

theorem depthMembers_congr {members : List (Units × JsonTree N)} {g : JsonTree N → JsonTree M}
    (h : ∀ m ∈ members, (g m.2).depth = m.2.depth) :
    depthMembers (members.map fun m => (m.1, g m.2)) = depthMembers members := by
  induction members with
  | nil => rfl
  | cons m ms ih =>
      rw [List.map_cons, depthMembers, depthMembers, h m List.mem_cons_self,
        ih fun u hu => h u (List.mem_cons_of_mem m hu)]

theorem depth_map (f : N → M) (t : JsonTree N) : (t.map f).depth = t.depth := by
  induction t with
  | null => rfl
  | bool b => rfl
  | num x => rfl
  | str s => rfl
  | arr items ih =>
      rw [map_arr]
      exact congrArg (· + 1) (depthItems_congr ih)
  | obj members ih =>
      rw [map_obj]
      exact congrArg (· + 1) (depthMembers_congr ih)

theorem depthMembers_le {members : List (Units × JsonTree N)} {n : Nat} :
    depthMembers members ≤ n ↔ ∀ m ∈ members, m.2.depth ≤ n := by
  induction members with
  | nil => simp [depthMembers]
  | cons m ms ih => rw [depthMembers, Nat.max_le, ih, List.forall_mem_cons]

/-- The depth of a dict, by the values of its keys. -/
theorem depth_obj_le {members : List (Units × JsonTree N)} (h : (members.map Prod.fst).Nodup)
    {n : Nat} : (obj members).depth ≤ n + 1 ↔
      ∀ k v, lastValue k members = some v → v.depth ≤ n := by
  rw [depth, Nat.add_le_add_iff_right, depthMembers_le]
  exact forall_values h (P := fun v => v.depth ≤ n)

theorem resolve_map (f : N → M) (t : JsonTree N) : (t.map f).resolve = t.resolve.map f := by
  induction t with
  | null => rfl
  | bool b => rfl
  | num x => rfl
  | str s => rfl
  | arr items ih =>
      simp only [map_arr, resolve_arr, List.map_map]
      exact congrArg arr (List.map_congr_left ih)
  | obj members ih =>
      simp only [map_obj, resolve_obj, List.map_map]
      rw [← dictOf_map, List.map_map]
      refine congrArg (fun ms => obj (dictOf ms)) (List.map_congr_left fun m hm => ?_)
      exact congrArg (Prod.mk m.1) (ih m hm)

/-- Functions that agree on the numbers of a tree change it into the same tree. -/
theorem map_congr {f g : N → M} {t : JsonTree N} (h : ∀ x ∈ t.nums, f x = g x) :
    t.map f = t.map g := by
  induction t with
  | null => rfl
  | bool b => rfl
  | num x => exact congrArg num (h x (List.mem_singleton_self x))
  | str s => rfl
  | arr items ih =>
      simp only [map_arr]
      refine congrArg arr (List.map_congr_left fun t ht => ih t ht fun x hx => h x ?_)
      rw [nums_arr]
      exact List.mem_flatMap.mpr ⟨t, ht, hx⟩
  | obj members ih =>
      simp only [map_obj]
      refine congrArg obj (List.map_congr_left fun m hm => ?_)
      refine congrArg (Prod.mk m.1) (ih m hm fun x hx => h x ?_)
      rw [nums_obj]
      exact List.mem_flatMap.mpr ⟨m, hm, hx⟩

theorem map_id (t : JsonTree N) : t.map id = t := by
  induction t with
  | null => rfl
  | bool b => rfl
  | num x => rfl
  | str s => rfl
  | arr items ih =>
      rw [map_arr, List.map_congr_left ih, List.map_id']
  | obj members ih =>
      have hmembers : ∀ m ∈ members, (m.1, m.2.map id) = m := fun m hm =>
        congrArg (Prod.mk m.1) (ih m hm)
      rw [map_obj, List.map_congr_left hmembers, List.map_id']

/-! ## Paths -/

/-- A step down a tree. -/
inductive Step where
  | item (i : Nat)
  | member (k : Units)
  deriving DecidableEq

/-- What a tree is, without what is in it. -/
inductive Shape (N : Type) where
  | null
  | bool (b : Bool)
  | num (x : N)
  | str (s : Units)
  | arr (length : Nat)
  | obj

/-- Another number in the same shape. -/
def Shape.map (f : N → M) : Shape N → Shape M
  | .null => .null
  | .bool b => .bool b
  | .num x => .num (f x)
  | .str s => .str s
  | .arr length => .arr length
  | .obj => .obj

/-- What is at the root of a tree. -/
def shape : JsonTree N → Shape N
  | .null => .null
  | .bool b => .bool b
  | .num x => .num x
  | .str s => .str s
  | .arr items => .arr items.length
  | .obj _ => .obj

/-- The value one step down; of an object, the last member of the name. -/
def child : JsonTree N → Step → Option (JsonTree N)
  | .arr items, .item i => items[i]?
  | .obj members, .member k => lastValue k members
  | _, _ => none

/-- What is at the end of a path. -/
def view : JsonTree N → List Step → Option (Shape N)
  | t, [] => some t.shape
  | t, s :: p => (t.child s).bind fun u => u.view p

theorem view_cons (t : JsonTree N) (s : Step) (p : List Step) :
    t.view (s :: p) = (t.child s).bind fun u => u.view p := rfl

@[simp] theorem shape_map (f : N → M) (t : JsonTree N) : (t.map f).shape = t.shape.map f := by
  cases t <;> simp [map, shape, Shape.map]

@[simp] theorem shape_resolve (t : JsonTree N) : t.resolve.shape = t.shape := by
  cases t <;> simp [resolve, shape]

theorem child_map (f : N → M) (t : JsonTree N) (s : Step) :
    (t.map f).child s = (t.child s).map (map f) := by
  cases t with
  | arr items => cases s <;> simp [map_arr, child]
  | obj members =>
      cases s with
      | item i => rfl
      | member k =>
          simp only [map_obj, child]
          exact lastValue_map (map f) k members
  | _ => rfl

theorem child_resolve (t : JsonTree N) (s : Step) :
    t.resolve.child s = (t.child s).map resolve := by
  cases t with
  | arr items => cases s <;> simp [resolve_arr, child]
  | obj members =>
      cases s with
      | item i => rfl
      | member k =>
          simp only [resolve_obj, child, lastValue_dictOf]
          exact lastValue_map resolve k members
  | _ => rfl

/-- A tree with its numbers changed shows the same, but for the numbers. -/
theorem view_map (f : N → M) (p : List Step) :
    ∀ t : JsonTree N, (t.map f).view p = (t.view p).map (Shape.map f) := by
  induction p with
  | nil => intro t; simp [view]
  | cons s p ih =>
      intro t
      rw [view_cons, view_cons, child_map]
      cases t.child s with
      | none => rfl
      | some u => exact ih u

/-- A tree shows the same with its objects made dicts. -/
theorem view_resolve (p : List Step) : ∀ t : JsonTree N, t.resolve.view p = t.view p := by
  induction p with
  | nil => intro t; simp [view]
  | cons s p ih =>
      intro t
      rw [view_cons, view_cons, child_resolve]
      cases t.child s with
      | none => rfl
      | some u => exact ih u

/-- Where a path leads nowhere, no longer one leads anywhere. -/
theorem view_append_none {p : List Step} (q : List Step) :
    ∀ {t : JsonTree N}, t.view p = none → t.view (p ++ q) = none := by
  induction p with
  | nil => exact fun h => nomatch h
  | cons s p ih =>
      intro t h
      rw [view_cons] at h
      rw [List.cons_append, view_cons]
      cases hchild : t.child s with
      | none => rfl
      | some u =>
          rw [hchild, Option.bind_some] at h
          exact ih h

/-- What is one step down has no other numbers. -/
theorem nums_child {t u : JsonTree N} {s : Step} (h : t.child s = some u) : u.nums ⊆ t.nums := by
  intro x hx
  cases t with
  | arr items =>
      cases s with
      | item i =>
          rw [nums_arr]
          exact List.mem_flatMap.mpr ⟨u, List.mem_iff_getElem?.mpr ⟨i, h⟩, hx⟩
      | member k => cases h
  | obj members =>
      cases s with
      | item i => cases h
      | member k =>
          rw [nums_obj]
          exact List.mem_flatMap.mpr ⟨(k, u), mem_of_lastValue h, hx⟩
  | _ => cases h

/-- A number at the end of a path is a number of the tree. -/
theorem mem_nums_of_view {x : N} (p : List Step) :
    ∀ {t : JsonTree N}, t.view p = some (.num x) → x ∈ t.nums := by
  induction p with
  | nil =>
      intro t h
      cases t with
      | num y =>
          cases h
          exact List.mem_singleton_self x
      | _ => cases h
  | cons s p ih =>
      intro t h
      obtain ⟨u, hchild, hview⟩ := Option.bind_eq_some_iff.mp h
      exact nums_child hchild (ih hview)

/-- The numbers of a tree of dicts are those at the ends of its paths. -/
theorem mem_nums_resolve {x : N} {t : JsonTree N} :
    x ∈ t.resolve.nums ↔ ∃ p, t.view p = some (.num x) := by
  induction t with
  | null =>
      refine iff_of_false (fun h => nomatch h) ?_
      rintro ⟨_ | ⟨s, p⟩, hp⟩ <;> simp [view, shape, child] at hp
  | bool b =>
      refine iff_of_false (fun h => nomatch h) ?_
      rintro ⟨_ | ⟨s, p⟩, hp⟩ <;> simp [view, shape, child] at hp
  | num y =>
      rw [resolve, nums, List.mem_singleton]
      constructor
      · rintro rfl
        exact ⟨[], rfl⟩
      · rintro ⟨_ | ⟨s, p⟩, hp⟩
        · simpa [view, shape, eq_comm] using hp
        · simp [view, child] at hp
  | str s =>
      refine iff_of_false (fun h => nomatch h) ?_
      rintro ⟨_ | ⟨s, p⟩, hp⟩ <;> simp [view, shape, child] at hp
  | arr items ih =>
      rw [resolve_arr, nums_arr, List.mem_flatMap]
      constructor
      · rintro ⟨u, hu, hx⟩
        obtain ⟨t, ht, rfl⟩ := List.mem_map.mp hu
        obtain ⟨p, hp⟩ := (ih t ht).mp hx
        obtain ⟨i, hi⟩ := List.mem_iff_getElem?.mp ht
        exact ⟨.item i :: p, by simp [view, child, hi, hp]⟩
      · rintro ⟨_ | ⟨i | k, p⟩, hp⟩
        · simp [view, shape] at hp
        · obtain ⟨t, ht, hview⟩ := Option.bind_eq_some_iff.mp hp
          have hmem := List.mem_iff_getElem?.mpr ⟨i, ht⟩
          exact ⟨t.resolve, List.mem_map_of_mem hmem, (ih t hmem).mpr ⟨p, hview⟩⟩
        · simp [view, child] at hp
  | obj members ih =>
      rw [resolve_obj, nums_obj, List.mem_flatMap]
      constructor
      · rintro ⟨⟨k, u⟩, hu, hx⟩
        -- an entry of the dict is the last of its name
        have hlast := lastValue_of_mem (nodup_dictOf _) hu
        rw [lastValue_dictOf, lastValue_map] at hlast
        obtain ⟨t, ht, rfl⟩ := Option.map_eq_some_iff.mp hlast
        obtain ⟨p, hp⟩ := (ih (k, t) (mem_of_lastValue ht)).mp hx
        exact ⟨.member k :: p, by simp [view, child, ht, hp]⟩
      · rintro ⟨_ | ⟨i | k, p⟩, hp⟩
        · simp [view, shape] at hp
        · simp [view, child] at hp
        · obtain ⟨t, ht, hview⟩ := Option.bind_eq_some_iff.mp hp
          have hmem := mem_of_lastValue ht
          have hlast := lastValue_map resolve k members
          rw [show lastValue k members = some t from ht, Option.map_some,
            ← lastValue_dictOf] at hlast
          exact ⟨(k, t.resolve), mem_of_lastValue hlast, (ih (k, t) hmem).mpr ⟨p, hview⟩⟩

end JsonTree

end Repercep.Foundation
