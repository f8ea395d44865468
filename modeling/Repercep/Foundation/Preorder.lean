import Mathlib
set_option autoImplicit false

/-!
# A walk over a labelled graph

The vertices that can be reached from one, each listed once, under the labels of the path the
walk found it by.  The vertices met are remembered over the whole walk, so it ends also where
the graph has cycles.
-/

namespace Repercep.Foundation

variable {V L : Type}

/-- The labels of a path from `root`. -/
inductive LabelPath (next : V → List (L × V)) (root : V) : List L → V → Prop where
  | nil : LabelPath next root [] root
  | snoc {ls : List L} {u : V} {e : L × V} (hpath : LabelPath next root ls u)
      (he : e ∈ next u) : LabelPath next root (ls ++ [e.1]) e.2

/-- Where the labels out of a vertex are distinct, they say where a path ends. -/
theorem LabelPath.unique {next : V → List (L × V)} {root : V}
    (hnext : ∀ u, ((next u).map Prod.fst).Nodup) {ls : List L} {u v : V}
    (hu : LabelPath next root ls u) (hv : LabelPath next root ls v) : u = v := by
  induction hu generalizing v with
  | nil =>
      generalize hnil : ([] : List L) = ls at hv
      cases hv with
      | nil => rfl
      | snoc hpath he => exact absurd hnil.symm (by simp)
  | @snoc ls u e hpath he ih =>
      generalize hls : ls ++ [e.1] = ls' at hv
      cases hv with
      | nil => exact absurd hls (by simp)
      | @snoc ls' u' e' hpath' he' =>
          obtain ⟨hinit, hlast⟩ := List.append_inj' hls rfl
          rw [hinit] at ih
          have hu := ih hpath'
          rw [hu] at he
          have hlabel : e.1 = e'.1 := (List.cons.inj hlast).1
          exact congrArg Prod.snd (List.inj_on_of_nodup_map (hnext u') he he' hlabel)

/-- The walks from the ends of a list of edges, one after the other. -/
def visitAll (visit : List V → List L → V → List (List L × V) × List V) (ls : List L) :
    List V → List (L × V) → List (List L × V) × List V
  | memo, [] => ([], memo)
  | memo, (l, v) :: es =>
    let first := visit memo (ls ++ [l]) v
    let rest := visitAll visit ls first.2 es
    (first.1 ++ rest.1, rest.2)

/-- What a part of the walk does: it takes the vertices met from `memo` to `memo'`. -/
structure Visits (next : V → List (L × V)) (root : V) (memo : List V)
    (out : List (List L × V)) (memo' : List V) : Prop where
  paths : ∀ e ∈ out, LabelPath next root e.1 e.2
  seen : ∀ v, v ∈ memo' ↔ v ∈ memo ∨ v ∈ out.map Prod.snd
  nodup : memo'.Nodup
  length : memo'.length = memo.length + out.length
  fresh : (out.map Prod.snd).Nodup
  closed : ∀ e ∈ out, ∀ e' ∈ next e.2, e'.2 ∈ memo'

section Walk

variable {next : V → List (L × V)} {root : V}

theorem Visits.nil {memo : List V} (hmemo : memo.Nodup) : Visits next root memo [] memo where
  paths := by simp
  seen := by simp
  nodup := hmemo
  length := rfl
  fresh := List.nodup_nil
  closed := by simp

theorem Visits.disjoint {memo memo' : List V} {out : List (List L × V)}
    (h : Visits next root memo out memo') : ∀ v ∈ memo, v ∉ out.map Prod.snd := by
  have hperm : (memo ++ out.map Prod.snd).Perm memo' := by
    have hsub : memo' ⊆ memo ++ out.map Prod.snd := by
      intro v hv
      exact List.mem_append.mpr ((h.seen v).mp hv)
    refine ((List.subperm_of_subset h.nodup hsub).perm_of_length_le ?_).symm
    rw [List.length_append, List.length_map, h.length]
  have hnodup := hperm.nodup_iff.mpr h.nodup
  exact fun v hv hout => List.disjoint_of_nodup_append hnodup hv hout

theorem Visits.append {memo memo₁ memo₂ : List V} {out₁ out₂ : List (List L × V)}
    (h₁ : Visits next root memo out₁ memo₁) (h₂ : Visits next root memo₁ out₂ memo₂) :
    Visits next root memo (out₁ ++ out₂) memo₂ where
  paths := by
    intro e he
    cases List.mem_append.mp he with
    | inl h => exact h₁.paths e h
    | inr h => exact h₂.paths e h
  seen := by
    intro v
    rw [h₂.seen, h₁.seen, List.map_append, List.mem_append, or_assoc]
  nodup := h₂.nodup
  length := by rw [h₂.length, h₁.length, List.length_append, Nat.add_assoc]
  fresh := by
    rw [List.map_append]
    refine h₁.fresh.append h₂.fresh ?_
    intro v hv
    exact h₂.disjoint v ((h₁.seen v).mpr (.inr hv))
  closed := by
    intro e he e' he'
    cases List.mem_append.mp he with
    | inl h => exact (h₂.seen _).mpr (.inl (h₁.closed e h e' he'))
    | inr h => exact h₂.closed e h e' he'

theorem visitAll_visits (visit : List V → List L → V → List (List L × V) × List V)
    (ls : List L) (es : List (L × V)) (bound : Nat) {memo : List V}
    (hvisit : ∀ memo, memo.Nodup → bound ≤ memo.length → ∀ e ∈ es,
      Visits next root memo (visit memo (ls ++ [e.1]) e.2).1 (visit memo (ls ++ [e.1]) e.2).2 ∧
        e.2 ∈ (visit memo (ls ++ [e.1]) e.2).2)
    (hmemo : memo.Nodup) (hbound : bound ≤ memo.length) :
    Visits next root memo (visitAll visit ls memo es).1 (visitAll visit ls memo es).2 ∧
      ∀ e ∈ es, e.2 ∈ (visitAll visit ls memo es).2 := by
  induction es generalizing memo with
  | nil => exact ⟨Visits.nil hmemo, by simp⟩
  | cons e es ih =>
      obtain ⟨hfirst, hmem⟩ := hvisit memo hmemo hbound e List.mem_cons_self
      have hgrown : bound ≤ (visit memo (ls ++ [e.1]) e.2).2.length := by
        rw [hfirst.length]
        omega
      obtain ⟨hrest, hall⟩ := ih
        (fun memo hm hb e' he' => hvisit memo hm hb e' (List.mem_cons_of_mem e he'))
        hfirst.nodup hgrown
      refine ⟨hfirst.append hrest, ?_⟩
      intro e' he'
      cases List.mem_cons.mp he' with
      | inl h =>
          rw [h]
          exact (hrest.seen _).mpr (.inl hmem)
      | inr h => exact hall e' h

end Walk

variable [DecidableEq V]

/-- The vertices from one on, and all that have been met. -/
def preorder (next : V → List (L × V)) :
    Nat → List V → List L → V → List (List L × V) × List V
  | 0, memo, _, _ => ([], memo)
  | fuel + 1, memo, ls, v =>
    if v ∈ memo then
      ([], memo)
    else
      let rest := visitAll (preorder next fuel) ls (v :: memo) (next v)
      ((ls, v) :: rest.1, rest.2)

/-- A walk with fuel for the vertices that are left. -/
theorem preorder_visits [Fintype V] {next : V → List (L × V)} {root : V} {fuel : Nat}
    {memo : List V} {ls : List L} {v : V} (hmemo : memo.Nodup) (hfuel : Fintype.card V < fuel + memo.length)
    (hpath : LabelPath next root ls v) :
    Visits next root memo (preorder next fuel memo ls v).1 (preorder next fuel memo ls v).2 ∧
      v ∈ (preorder next fuel memo ls v).2 := by
  induction fuel generalizing memo ls v with
  | zero =>
      have hle := hmemo.length_le_card
      omega
  | succ fuel ih =>
      rw [preorder]
      split
      · exact ⟨Visits.nil hmemo, by assumption⟩
      · have hnew : (v :: memo).Nodup := List.nodup_cons.mpr ⟨by assumption, hmemo⟩
        obtain ⟨hrest, hall⟩ := visitAll_visits (preorder next fuel) ls (next v)
          (memo.length + 1) (fun memo' hm hb e he => ih hm (by omega) (hpath.snoc he)) hnew
          (by rw [List.length_cons])
        have hv : v ∈ (visitAll (preorder next fuel) ls (v :: memo) (next v)).2 :=
          (hrest.seen v).mpr (.inl List.mem_cons_self)
        refine ⟨⟨?_, ?_, hrest.nodup, ?_, ?_, ?_⟩, hv⟩
        · intro e he
          cases List.mem_cons.mp he with
          | inl h =>
              rw [h]
              exact hpath
          | inr h => exact hrest.paths e h
        · intro u
          rw [hrest.seen, List.map_cons, List.mem_cons, List.mem_cons]
          tauto
        · rw [hrest.length, List.length_cons, List.length_cons]
          omega
        · rw [List.map_cons, List.nodup_cons]
          exact ⟨hrest.disjoint v List.mem_cons_self, hrest.fresh⟩
        · intro e he e' he'
          cases List.mem_cons.mp he with
          | inl h =>
              rw [h] at he'
              exact hall e' he'
          | inr h => exact hrest.closed e h e' he'

/-- All that the walk lists from `root`. -/
def preorderFrom [Fintype V] (next : V → List (L × V)) (root : V) : List (List L × V) :=
  (preorder next (Fintype.card V + 1) [] [] root).1

section All

variable [Fintype V] {next : V → List (L × V)} {root : V}

theorem preorderFrom_visits :
    Visits next root [] (preorderFrom next root)
      (preorder next (Fintype.card V + 1) [] [] root).2 ∧
      root ∈ (preorder next (Fintype.card V + 1) [] [] root).2 :=
  preorder_visits List.nodup_nil (by simp) LabelPath.nil

theorem preorderFrom_nodup : ((preorderFrom next root).map Prod.snd).Nodup :=
  preorderFrom_visits.1.fresh

theorem preorderFrom_path {e : List L × V} (he : e ∈ preorderFrom next root) :
    LabelPath next root e.1 e.2 :=
  preorderFrom_visits.1.paths e he

/-- Every vertex there is a path to is listed. -/
theorem preorderFrom_complete {ls : List L} {v : V} (hpath : LabelPath next root ls v) :
    v ∈ (preorderFrom next root).map Prod.snd := by
  obtain ⟨hvisits, hroot⟩ := @preorderFrom_visits _ _ _ _ next root
  have hlisted : ∀ u, u ∈ (preorder next (Fintype.card V + 1) [] [] root).2 →
      u ∈ (preorderFrom next root).map Prod.snd := by
    intro u hu
    cases (hvisits.seen u).mp hu with
    | inl h => cases h
    | inr h => exact h
  induction hpath with
  | nil => exact hlisted root hroot
  | snoc hpath he ih =>
      obtain ⟨e, heList, heq⟩ := List.mem_map.mp ih
      rw [← heq] at he
      exact hlisted _ (hvisits.closed e heList _ he)

end All

end Repercep.Foundation
