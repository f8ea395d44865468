import Repercep.Cache.Model
set_option autoImplicit false

/-!
# The two caches agree

Page ids count up, so a new page goes to the end of the `BTreeMap` as it goes to the end
of the `dict`, and the two containers hold the same pages in the same order after any
history.  Then the two policies read the same list and both take the first of its least
pages: ties are broken by the order of allocation on either side.
-/

namespace Repercep.Cache

open Repercep.Foundation

variable {R : Type}

/-! ## The policy -/

/-- The value fits in an `i64`. -/
def InI64 (x : Int) : Prop := -(2 ^ 63) ≤ x ∧ x < 2 ^ 63

theorem i64Sub_eq {a b : Int} (h : InI64 (a - b)) : i64Sub a b = a - b := by
  have hlow := h.1
  have hhigh := h.2
  apply Int.bmod_eq_of_le_mul_two <;> omega

/-- What both policies order the pages by. -/
def frameKey (currentFrame : Int) (p : LatentPage R) : Int × Int :=
  (p.frameIndex - currentFrame, p.lastUsedStep)

theorem rustBest_eq {currentFrame : Int} {cur p : LatentPage R}
    (hp : InI64 (p.frameIndex - currentFrame))
    (hcur : InI64 (cur.frameIndex - currentFrame)) :
    rustBest currentFrame (some cur) p =
      some (if pairLt (frameKey currentFrame p) (frameKey currentFrame cur) then p
        else cur) := by
  rw [rustBest, i64Sub_eq hp, i64Sub_eq hcur]
  change (if pairLt (frameKey currentFrame p) (frameKey currentFrame cur) = true then
    some p else some cur) = _
  split <;> rfl

theorem pythonMin_mem (key : LatentPage R → Int × Int) (x : LatentPage R)
    (rest : List (LatentPage R)) : pythonMin key x rest ∈ x :: rest := by
  induction rest generalizing x with
  | nil => exact List.mem_singleton_self x
  | cons y rest ih =>
      change pythonMin key (if pairLt (key y) (key x) then y else x) rest ∈ _
      have hmem := ih (if pairLt (key y) (key x) then y else x)
      split at hmem
      · next hlt =>
          rw [if_pos hlt]
          exact List.mem_cons_of_mem x hmem
      · next hnlt =>
          rw [if_neg hnlt]
          cases List.mem_cons.mp hmem with
          | inl heq =>
              rw [heq]
              exact List.mem_cons_self
          | inr hrest => exact List.mem_cons_of_mem x (List.mem_cons_of_mem y hrest)

theorem not_pairLt_trans {a b c : Int × Int} (hab : pairLt a b = false)
    (hbc : pairLt b c = false) : pairLt a c = false := by
  simp only [pairLt, decide_eq_false_iff_not] at hab hbc ⊢
  omega

theorem not_pairLt_of_pairLt {a b : Int × Int} (h : pairLt a b = true) :
    pairLt b a = false := by
  simp only [pairLt, decide_eq_true_eq, decide_eq_false_iff_not] at h ⊢
  omega

/-- No page comes before the one `min` returns. -/
theorem pythonMin_least (key : LatentPage R → Int × Int) (x : LatentPage R)
    (rest : List (LatentPage R)) {p : LatentPage R} (hp : p ∈ x :: rest) :
    pairLt (key p) (key (pythonMin key x rest)) = false := by
  induction rest generalizing x p with
  | nil =>
      rw [List.mem_singleton.mp hp]
      simp [pythonMin, pairLt]
  | cons y rest ih =>
      change pairLt (key p)
        (key (pythonMin key (if pairLt (key y) (key x) then y else x) rest)) = false
      by_cases hlt : pairLt (key y) (key x) = true
      · rw [if_pos hlt]
        cases List.mem_cons.mp hp with
        | inl heq =>
            rw [heq]
            exact not_pairLt_trans (not_pairLt_of_pairLt hlt) (ih y List.mem_cons_self)
        | inr hmem => exact ih y hmem
      · rw [if_neg hlt]
        have hnlt : pairLt (key y) (key x) = false := by simpa using hlt
        cases List.mem_cons.mp hp with
        | inl heq =>
            rw [heq]
            exact ih x List.mem_cons_self
        | inr hmem =>
            cases List.mem_cons.mp hmem with
            | inl heq =>
                rw [heq]
                exact not_pairLt_trans hnlt (ih x List.mem_cons_self)
            | inr hrest => exact ih x (List.mem_cons_of_mem x hrest)

/-- The loop of the Rust policy, once it has a candidate, is the fold of `min`. -/
theorem foldl_rustBest {currentFrame : Int} {x : LatentPage R}
    {rest : List (LatentPage R)}
    (hfits : ∀ p ∈ x :: rest, InI64 (p.frameIndex - currentFrame)) :
    rest.foldl (rustBest currentFrame) (some x) =
      some (pythonMin (frameKey currentFrame) x rest) := by
  induction rest generalizing x with
  | nil => rfl
  | cons y rest ih =>
      have hx := hfits x List.mem_cons_self
      have hy := hfits y (List.mem_cons_of_mem x List.mem_cons_self)
      rw [List.foldl_cons, rustBest_eq hy hx]
      apply ih
      intro p hp
      cases List.mem_cons.mp hp with
      | inl heq =>
          rw [heq]
          split
          · exact hy
          · exact hx
      | inr hrest => exact hfits p (List.mem_cons_of_mem x (List.mem_cons_of_mem y hrest))

/-- The two policies on the same pages: both find every page pinned, or both choose the
same page, which is one of the unpinned. -/
theorem victim_cases {pages : List (LatentPage R)} {currentFrame : Int}
    (hfits : ∀ p ∈ pages, InI64 (p.frameIndex - currentFrame)) :
    (rustVictim pages currentFrame = .error .fullyPinned ∧
        pythonVictim pages currentFrame =
          .error (.latentCacheError LatentCacheError.fullyPinned.message)) ∨
      ∃ p ∈ pages, p.inUse = false ∧ rustVictim pages currentFrame = .ok p.pageId ∧
        pythonVictim pages currentFrame = .ok p.pageId := by
  rw [rustVictim, pythonVictim]
  cases hfree : pages.filter fun p => !p.inUse with
  | nil => exact .inl ⟨rfl, rfl⟩
  | cons x rest =>
      have hmem : ∀ p ∈ x :: rest, p ∈ pages ∧ p.inUse = false := by
        intro p hp
        rw [← hfree, List.mem_filter] at hp
        exact ⟨hp.1, by simpa using hp.2⟩
      have hvictim := hmem _ (pythonMin_mem (frameKey currentFrame) x rest)
      refine .inr ⟨pythonMin (frameKey currentFrame) x rest, hvictim.1, hvictim.2, ?_, rfl⟩
      rw [List.foldl_cons, rustBest, foldl_rustBest fun p hp => hfits p (hmem p hp).1]

/-! ## Well-formed page tables -/

/-- The page table of a Rust cache: pages are filed under their own ids, which are below
the next one, and there are no more of them than the capacity allows. -/
structure RustCache.WellFormed (s : RustCache R) : Prop where
  ids : ∀ e ∈ s.pages.entries, e.2.pageId = e.1
  below : ∀ k ∈ s.pages.entries.map Prod.fst, k < s.nextId
  bounded : s.pages.entries.length ≤ s.capacity

namespace RustCache.WellFormed

variable {s : RustCache R}

theorem init [DecidableEq R] (capacity : Nat) :
    (rustCache (R := R) capacity).init.WellFormed where
  ids := fun _ he => absurd he List.not_mem_nil
  below := fun _ hk => absurd hk List.not_mem_nil
  bounded := Nat.zero_le capacity

/-- Removing pages keeps the table well-formed. -/
theorem sublist {pages : SortedMap Nat (LatentPage R)} (h : s.WellFormed)
    (hsub : pages.entries.Sublist s.pages.entries) :
    RustCache.WellFormed { s with pages := pages } where
  ids := fun e he => h.ids e (hsub.subset he)
  below := fun k hk => h.below k ((hsub.map Prod.fst).subset hk)
  bounded := Nat.le_trans hsub.length_le h.bounded

/-- So does changing a page under its id. -/
theorem adjust (h : s.WellFormed) (f : LatentPage R → LatentPage R)
    (hf : ∀ p, (f p).pageId = p.pageId) (pageId : Nat) :
    RustCache.WellFormed { s with pages := s.pages.adjust pageId f } where
  ids := by
    intro e he
    obtain ⟨d, hd, rfl⟩ := List.mem_map.mp he
    split
    · rw [hf]
      exact h.ids d hd
    · exact h.ids d hd
  below := by
    intro k hk
    change k ∈ (adjustEntry pageId f s.pages.entries).map Prod.fst at hk
    rw [map_fst_adjustEntry] at hk
    exact h.below k hk
  bounded := by
    change (adjustEntry pageId f s.pages.entries).length ≤ s.capacity
    rw [adjustEntry, List.length_map]
    exact h.bounded

theorem place_entries (h : s.WellFormed) (requestId : R) (frameIndex step : Int) :
    (s.place requestId frameIndex step).pages.entries =
      s.pages.entries ++
        [(s.nextId, ⟨s.nextId, requestId, frameIndex, step, true⟩)] :=
  placeEntry_of_lt h.below

/-- And so does a new page where there is room. -/
theorem place (h : s.WellFormed) (hroom : s.pages.entries.length < s.capacity)
    (requestId : R) (frameIndex step : Int) :
    (s.place requestId frameIndex step).WellFormed where
  ids := by
    intro e he
    rw [h.place_entries] at he
    cases List.mem_append.mp he with
    | inl hold => exact h.ids e hold
    | inr hnew => rw [List.mem_singleton.mp hnew]
  below := by
    intro k hk
    rw [h.place_entries, List.map_append] at hk
    cases List.mem_append.mp hk with
    | inl hold => exact Nat.lt_succ_of_lt (h.below k hold)
    | inr hnew => exact List.mem_singleton.mp hnew ▸ Nat.lt_succ_self s.nextId
  bounded := by
    rw [h.place_entries, List.length_append]
    exact hroom

/-- The victim of a full cache makes room. -/
theorem room (h : s.WellFormed) {victim : Nat}
    (hvictim : victim ∈ s.pages.entries.map Prod.fst) :
    (s.pages.remove victim).entries.length < s.capacity := by
  have hlength := length_eraseEntry s.pages.nodup hvictim
  have hbounded := h.bounded
  change (eraseEntry victim s.pages.entries).length < s.capacity
  omega

/-- A page of the table is filed under its id. -/
theorem mem_of_value (h : s.WellFormed) {p : LatentPage R} (hp : p ∈ s.pages.values) :
    p.pageId ∈ s.pages.entries.map Prod.fst := by
  obtain ⟨e, he, rfl⟩ := List.mem_map.mp hp
  rw [h.ids e he]
  exact List.mem_map_of_mem he

end RustCache.WellFormed

theorem removeAll_sublist (ks : List Nat) (m : SortedMap Nat (LatentPage R)) :
    (ks.foldl SortedMap.remove m).entries.Sublist m.entries := by
  induction ks generalizing m with
  | nil => exact List.Sublist.refl m.entries
  | cons k ks ih => exact (ih (m.remove k)).trans List.filter_sublist

/-! ## One call -/

/-- Every difference the Rust policy may compute on a call fits in an `i64`. -/
def RustCache.Within (s : RustCache R) : CacheCall R → Prop
  | .allocate _ _ _ currentFrame =>
      ∀ p ∈ s.pages.values, InI64 (p.frameIndex - currentFrame)
  | _ => True

/-- The two caches hold the same pages in the same order and number the next one alike. -/
structure Agree (r : RustCache R) (p : PythonCache R) : Prop where
  capacity : r.capacity = p.capacity
  nextId : r.nextId = p.nextId
  pages : SameEntries r.pages p.pages

namespace Agree

variable {r : RustCache R} {p : PythonCache R}

theorem length (h : Agree r p) : p.pages.values.length = r.pages.entries.length := by
  rw [← h.pages.values, SortedMap.values, List.length_map]

theorem place (h : Agree r p) (hwf : r.WellFormed) (requestId : R)
    (frameIndex step : Int) :
    Agree (r.place requestId frameIndex step) (p.place requestId frameIndex step) where
  capacity := h.capacity
  nextId := congrArg Nat.succ h.nextId
  pages := by
    have hsame := h.pages.insert
      (⟨r.nextId, requestId, frameIndex, step, true⟩ : LatentPage R) hwf.below
    simp only [RustCache.place, PythonCache.place, ← h.nextId]
    exact hsame

theorem adjust (h : Agree r p) (pageId : Nat) (f : LatentPage R → LatentPage R) :
    Agree { r with pages := r.pages.adjust pageId f }
      { p with pages := p.pages.adjust pageId f } where
  capacity := h.capacity
  nextId := h.nextId
  pages := h.pages.adjust f

theorem stats (h : Agree r p) (hwf : r.WellFormed) : r.stats = p.stats := by
  have hbounded : r.pages.values.length ≤ r.capacity := by
    rw [SortedMap.values, List.length_map]
    exact hwf.bounded
  rw [RustCache.stats, PythonCache.stats, ← h.pages.values, ← h.capacity,
    Int.ofNat_sub hbounded]

/-- A full cache: both find every page pinned, or both evict the same page and take the
new one in. -/
theorem allocate_full (h : Agree r p) (hwf : r.WellFormed) (requestId : R)
    (frameIndex step : Int) {currentFrame : Int}
    (hwithin : ∀ p ∈ r.pages.values, InI64 (p.frameIndex - currentFrame))
    (hfull : r.capacity ≤ r.pages.values.length) :
    (r.allocate requestId frameIndex step currentFrame = .error .fullyPinned ∧
        p.allocate requestId frameIndex step currentFrame =
          .error (.latentCacheError LatentCacheError.fullyPinned.message)) ∨
      ∃ victim pages, victim ∈ r.pages.entries.map Prod.fst ∧
        r.allocate requestId frameIndex step currentFrame =
          .ok (some victim, r.nextId,
            { r with pages := r.pages.remove victim }.place requestId frameIndex step) ∧
        p.allocate requestId frameIndex step currentFrame =
          .ok (some victim, r.nextId,
            { p with pages := pages }.place requestId frameIndex step) ∧
        Agree { r with pages := r.pages.remove victim } { p with pages := pages } := by
  have hfull' : p.capacity ≤ p.pages.values.length := by
    rw [← h.capacity, ← h.pages.values]
    exact hfull
  rw [RustCache.allocate, PythonCache.allocate, if_pos hfull, if_pos hfull',
    ← h.pages.values]
  rcases victim_cases hwithin with ⟨hrust, hpython⟩ | ⟨page, hpage, -, hrust, hpython⟩
  · rw [hrust, hpython]
    exact .inl ⟨rfl, rfl⟩
  · have hmem := hwf.mem_of_value hpage
    obtain ⟨pages, hdelete, hsame⟩ := h.pages.remove hmem
    refine .inr ⟨page.pageId, pages, hmem, ?_, ?_, h.capacity, h.nextId, hsame⟩
    · rw [hrust]
    · rw [hpython]
      simp only [hdelete, ← h.nextId]

/-- The same call has the same effects on both. -/
theorem step [DecidableEq R] (h : Agree r p) (hwf : r.WellFormed) {call : CacheCall R}
    (hwithin : r.Within call) :
    ∃ es r' p', r.step call = some (es, r') ∧ p.step call = some (es, p') ∧
      Agree r' p' ∧ r'.WellFormed := by
  cases call with
  | allocate requestId frameIndex step currentFrame =>
      by_cases hfull : r.capacity ≤ r.pages.values.length
      · rcases h.allocate_full hwf requestId frameIndex step hwithin hfull with
          ⟨hrust, hpython⟩ | ⟨victim, pages, hmem, hrust, hpython, hagree⟩
        · refine ⟨[.answered (.latentCacheError LatentCacheError.fullyPinned.message)],
            r, p, ?_, ?_, h, hwf⟩
          · rw [RustCache.step, hrust]
          · rw [PythonCache.step, hpython]
            rfl
        · have hsmall : RustCache.WellFormed { r with pages := r.pages.remove victim } :=
            hwf.sublist List.filter_sublist
          refine ⟨[.evicted victim, .answered (.page r.nextId)], _, _, ?_, ?_, hagree.place hsmall requestId frameIndex step,
            hsmall.place (hwf.room hmem) requestId frameIndex step⟩
          · rw [RustCache.step, hrust]
          · rw [PythonCache.step, hpython]
      · have hroom : r.pages.entries.length < r.capacity := by
          rw [SortedMap.values, List.length_map] at hfull
          exact Nat.lt_of_not_le hfull
        have hroom' : ¬ p.capacity ≤ p.pages.values.length := by
          rw [← h.capacity, h.length]
          exact Nat.not_le_of_lt hroom
        refine ⟨[.answered (.page r.nextId)], _, _, ?_, ?_,
          h.place hwf requestId frameIndex step,
          hwf.place hroom requestId frameIndex step⟩
        · rw [RustCache.step, RustCache.allocate, if_neg hfull]
        · rw [PythonCache.step, PythonCache.allocate, if_neg hroom', h.nextId]
  | touch pageId step =>
      exact ⟨_, _, _, rfl, rfl, h.adjust pageId _,
        hwf.adjust (fun page => { page with lastUsedStep := step }) (fun _ => rfl) pageId⟩
  | unpin pageId =>
      exact ⟨_, _, _, rfl, rfl, h.adjust pageId _,
        hwf.adjust (fun page => { page with inUse := false }) (fun _ => rfl) pageId⟩
  | releaseRequest requestId =>
      have hkeys : ((r.pages.entries.filter fun e => e.2.requestId = requestId).map
          Prod.fst).Sublist (r.pages.entries.map Prod.fst) :=
        List.filter_sublist.map Prod.fst
      obtain ⟨pages, hdeletes, hsame⟩ := h.pages.removeAll
        (hkeys.nodup r.pages.nodup) (fun k hk => hkeys.subset hk)
      refine ⟨_, _, { p with pages := pages }, rfl, ?_, ⟨h.capacity, h.nextId, hsame⟩,
        hwf.sublist (removeAll_sublist _ _)⟩
      rw [PythonCache.step, PythonCache.releaseRequest, ← h.pages]
      simp only [hdeletes]
      rfl
  | stats =>
      refine ⟨_, r, p, rfl, ?_, h, hwf⟩
      rw [PythonCache.step, h.stats hwf]

end Agree

/-! ## Histories of calls -/

/-- The frame index of the earlier call, compared with the window of the later one,
gives a difference that fits in an `i64`. -/
def CacheCall.Fits : CacheCall R → CacheCall R → Prop
  | .allocate _ frameIndex _ _, .allocate _ _ _ currentFrame =>
      InI64 (frameIndex - currentFrame)
  | _, _ => True

/-- The frame indices of all pages satisfy `P`. -/
def RustCache.Frames (s : RustCache R) (P : Int → Prop) : Prop :=
  ∀ p ∈ s.pages.values, P p.frameIndex

namespace RustCache.Frames

variable {s : RustCache R} {P : Int → Prop}

theorem sublist {pages : SortedMap Nat (LatentPage R)} (h : s.Frames P)
    (hsub : pages.entries.Sublist s.pages.entries) :
    RustCache.Frames { s with pages := pages } P :=
  fun p hp => h p ((hsub.map Prod.snd).subset hp)

theorem adjust (h : s.Frames P) (f : LatentPage R → LatentPage R)
    (hf : ∀ p, (f p).frameIndex = p.frameIndex) (pageId : Nat) :
    RustCache.Frames { s with pages := s.pages.adjust pageId f } P := by
  intro p hp
  obtain ⟨e, he, rfl⟩ := List.mem_map.mp hp
  obtain ⟨d, hd, rfl⟩ := List.mem_map.mp he
  have hold := h d.2 (List.mem_map_of_mem hd)
  split
  · rw [hf]
    exact hold
  · exact hold

theorem place (h : s.Frames P) (hwf : s.WellFormed) (requestId : R) {frameIndex : Int}
    (step : Int) (hframe : P frameIndex) :
    (s.place requestId frameIndex step).Frames P := by
  intro p hp
  rw [SortedMap.values, hwf.place_entries, List.map_append] at hp
  cases List.mem_append.mp hp with
  | inl hold => exact h p hold
  | inr hnew =>
      rw [List.mem_singleton.mp hnew]
      exact hframe

end RustCache.Frames

/-- An allocation places the new page in the cache as it was, or without a victim. -/
theorem RustCache.allocate_ok {s s' : RustCache R} {requestId : R}
    {frameIndex step currentFrame : Int} {evicted : Option Nat} {pageId : Nat}
    (h : s.allocate requestId frameIndex step currentFrame = .ok (evicted, pageId, s')) :
    ∃ pages : SortedMap Nat (LatentPage R), pages.entries.Sublist s.pages.entries ∧
      s' = { s with pages := pages }.place requestId frameIndex step := by
  rw [allocate] at h
  split at h
  · split at h
    · cases h
    · cases h
      exact ⟨_, List.filter_sublist, rfl⟩
  · cases h
    exact ⟨s.pages, List.Sublist.refl _, rfl⟩

/-- The frame indices of a cache are those of its allocations. -/
theorem RustCache.Frames.step [DecidableEq R] {s s' : RustCache R} {P : Int → Prop}
    {call : CacheCall R} {es : List CacheEvent} (h : s.Frames P) (hwf : s.WellFormed)
    (hcall : ∀ requestId frameIndex step currentFrame,
      call = .allocate requestId frameIndex step currentFrame → P frameIndex)
    (hstep : s.step call = some (es, s')) : s'.Frames P := by
  cases call with
  | allocate requestId frameIndex step currentFrame =>
      have hplaced : ∀ {evicted pageId t},
          s.allocate requestId frameIndex step currentFrame = .ok (evicted, pageId, t) →
            t.Frames P := by
        intro evicted pageId t hok
        obtain ⟨pages, hsub, rfl⟩ := allocate_ok hok
        exact (h.sublist hsub).place (hwf.sublist hsub) requestId step
          (hcall requestId frameIndex step currentFrame rfl)
      rw [RustCache.step] at hstep
      split at hstep
      · cases hstep
        exact h
      · next hok =>
          cases hstep
          exact hplaced hok
      · next hok =>
          cases hstep
          exact hplaced hok
  | touch pageId step =>
      cases hstep
      exact h.adjust (fun p => { p with lastUsedStep := step }) (fun _ => rfl) pageId
  | unpin pageId =>
      cases hstep
      exact h.adjust (fun p => { p with inUse := false }) (fun _ => rfl) pageId
  | releaseRequest requestId =>
      cases hstep
      exact h.sublist (removeAll_sublist _ _)
  | stats =>
      cases hstep
      exact h

/-- A call that stays within `i64` does so after an earlier call it fits. -/
theorem RustCache.Within.step [DecidableEq R] {s s' : RustCache R}
    {call later : CacheCall R} {es : List CacheEvent} (h : s.Within later)
    (hwf : s.WellFormed) (hfits : call.Fits later)
    (hstep : s.step call = some (es, s')) : s'.Within later := by
  cases later with
  | allocate requestId frameIndex step currentFrame =>
      apply Frames.step (P := fun f => InI64 (f - currentFrame)) h hwf ?_ hstep
      intro requestId' frameIndex' step' currentFrame' hcall
      subst hcall
      exact hfits
  | touch pageId step => trivial
  | unpin pageId => trivial
  | releaseRequest requestId => trivial
  | stats => trivial

/-- From agreeing states, a history of calls has the same effects on both caches. -/
theorem Agree.run [DecidableEq R] (capacity : Nat) {calls : List (CacheCall R)}
    {r : RustCache R} {p : PythonCache R} (h : Agree r p) (hwf : r.WellFormed)
    (hwithin : ∀ call ∈ calls, r.Within call) (hfits : calls.Pairwise CacheCall.Fits) :
    ∃ es r' p', (rustCache capacity).run r calls = some (es, r') ∧
      (pythonCache capacity).run p calls = some (es, p') ∧ Agree r' p' := by
  induction calls generalizing r p with
  | nil => exact ⟨[], r, p, rfl, rfl, h⟩
  | cons call calls ih =>
      rw [List.pairwise_cons] at hfits
      obtain ⟨es₁, r₁, p₁, hrust, hpython, hagree, hwf₁⟩ :=
        h.step hwf (hwithin call List.mem_cons_self)
      have hwithin₁ : ∀ later ∈ calls, r₁.Within later := by
        intro later hlater
        exact (hwithin later (List.mem_cons_of_mem call hlater)).step hwf
          (hfits.1 later hlater) hrust
      obtain ⟨es₂, r₂, p₂, hrust₂, hpython₂, hagree₂⟩ := ih hagree hwf₁ hwithin₁ hfits.2
      exact ⟨es₁ ++ es₂, r₂, p₂,
        Machine.run_cons_eq_some.mpr ⟨es₁, r₁, es₂, hrust, hrust₂, rfl⟩,
        Machine.run_cons_eq_some.mpr ⟨es₁, p₁, es₂, hpython, hpython₂, rfl⟩, hagree₂⟩

/-- The two caches agree: after any history of calls whose frame differences do not
overflow, each call was answered alike and evicted the same victim, and the page tables
hold the same pages in the same order. -/
theorem caches_agree [DecidableEq R] (capacity : Nat) (calls : List (CacheCall R))
    (hfits : calls.Pairwise CacheCall.Fits) :
    ∃ es r p, (rustCache capacity).run (rustCache capacity).init calls = some (es, r) ∧
      (pythonCache capacity).run (pythonCache capacity).init calls = some (es, p) ∧
      r.pages.entries = p.pages.entries := by
  have hinit : Agree (rustCache (R := R) capacity).init (pythonCache capacity).init :=
    ⟨rfl, rfl, rfl⟩
  have hempty : ∀ call ∈ calls, (rustCache (R := R) capacity).init.Within call := by
    intro call _
    cases call with
    | allocate => exact fun p hp => absurd hp List.not_mem_nil
    | touch => trivial
    | unpin => trivial
    | releaseRequest => trivial
    | stats => trivial
  obtain ⟨es, r, p, hrust, hpython, hagree⟩ :=
    hinit.run capacity (RustCache.WellFormed.init capacity) hempty hfits
  exact ⟨es, r, p, hrust, hpython, hagree.pages⟩

/-- Two evictable pages of one frame, last used at one step: either cache evicts the one
allocated first, here page 0. -/
theorem caches_agree_on_tie :
    ∃ es r p, (rustCache 2).run (rustCache 2).init
        ([.allocate 5 3 7 3, .allocate 6 3 7 3, .unpin 1, .unpin 0, .allocate 5 4 8 4,
          .releaseRequest 5] : List (CacheCall Nat)) = some (es, r) ∧
      (pythonCache 2).run (pythonCache 2).init
        [.allocate 5 3 7 3, .allocate 6 3 7 3, .unpin 1, .unpin 0, .allocate 5 4 8 4,
          .releaseRequest 5] = some (es, p) ∧
      r.pages.entries = p.pages.entries ∧
      es = [.answered (.page 0), .answered (.page 1), .answered .done, .answered .done,
        .evicted 0, .answered (.page 2), .answered (.released 1)] := by
  obtain ⟨es, r, p, hrust, hpython, hpages⟩ := caches_agree 2
    ([.allocate 5 3 7 3, .allocate 6 3 7 3, .unpin 1, .unpin 0, .allocate 5 4 8 4,
      .releaseRequest 5] : List (CacheCall Nat)) (by simp [CacheCall.Fits, InI64])
  refine ⟨es, r, p, hrust, hpython, hpages, ?_⟩
  have hfst := congrArg (Option.map Prod.fst) hpython
  exact Option.some.inj (hfst.symm.trans (by rfl))

end Repercep.Cache
