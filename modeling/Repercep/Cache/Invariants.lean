import Repercep.Cache.Agreement
set_option autoImplicit false

/-!
# The page table over whole histories

What holds of the Rust cache after any history of calls, and what each call of it may do
to the table: the pool is never overdrawn, ids are handed out in order, a pinned page
outlives every allocation, and an allocation takes at most one page away, none while the
pool has room.
-/

namespace Repercep.Cache

open Repercep.Foundation

variable {R : Type}

/-! ## The policy on any pages -/

/-- A turn of the loop keeps the candidate or takes the page it looks at. -/
theorem rustBest_mem (currentFrame : Int) (best : Option (LatentPage R))
    (p : LatentPage R) : ∃ q, rustBest currentFrame best p = some q ∧ (best = some q ∨ q = p) := by
  cases best with
  | none => exact ⟨p, rfl, .inr rfl⟩
  | some cur =>
      simp only [rustBest]
      split
      · exact ⟨p, rfl, .inr rfl⟩
      · exact ⟨cur, rfl, .inl rfl⟩

theorem foldl_rustBest_mem (currentFrame : Int) {q : LatentPage R} :
    ∀ (pages : List (LatentPage R)) (best : Option (LatentPage R)),
      pages.foldl (rustBest currentFrame) best = some q → best = some q ∨ q ∈ pages := by
  intro pages
  induction pages with
  | nil => exact fun best h => .inl h
  | cons p pages ih =>
      intro best h
      rw [List.foldl_cons] at h
      rcases ih _ h with hnext | hmem
      · obtain ⟨r, hr, hsource⟩ := rustBest_mem currentFrame best p
        cases hr.symm.trans hnext
        rcases hsource with hbest | rfl
        · exact .inl hbest
        · exact .inr List.mem_cons_self
      · exact .inr (List.mem_cons_of_mem p hmem)

/-- The victim is a page of the pool that nobody has pinned, even where the distances
overflow. -/
theorem rustVictim_ok {pages : List (LatentPage R)} {currentFrame : Int} {victim : Nat}
    (h : rustVictim pages currentFrame = .ok victim) :
    ∃ p ∈ pages, p.inUse = false ∧ p.pageId = victim := by
  unfold rustVictim at h
  split at h
  · next p hbest =>
      cases h
      rcases foldl_rustBest_mem currentFrame _ _ hbest with hnone | hmem
      · cases hnone
      · obtain ⟨hp, hfree⟩ := List.mem_filter.mp hmem
        exact ⟨p, hp, by simpa using hfree, rfl⟩
  · cases h

/-- Once the loop has a candidate it keeps one. -/
theorem foldl_rustBest_isSome (currentFrame : Int) :
    ∀ (pages : List (LatentPage R)) (cur : LatentPage R),
      ∃ q, pages.foldl (rustBest currentFrame) (some cur) = some q := by
  intro pages
  induction pages with
  | nil => exact fun cur => ⟨cur, rfl⟩
  | cons p pages ih =>
      intro cur
      obtain ⟨q, hq, -⟩ := rustBest_mem currentFrame (some cur) p
      rw [List.foldl_cons, hq]
      exact ih q

/-- There is no victim only where every page is pinned. -/
theorem rustVictim_error {pages : List (LatentPage R)} {currentFrame : Int}
    {e : LatentCacheError} (h : rustVictim pages currentFrame = .error e) :
    ∀ p ∈ pages, p.inUse = true := by
  unfold rustVictim at h
  cases hunpinned : pages.filter fun p => !p.inUse with
  | nil =>
      intro p hp
      have hnone := List.filter_eq_nil_iff.mp hunpinned p hp
      simpa using hnone
  | cons x rest =>
      obtain ⟨q, hq⟩ := foldl_rustBest_isSome currentFrame rest x
      have hfirst : rustBest currentFrame none x = some x := rfl
      rw [hunpinned, List.foldl_cons, hfirst, hq] at h
      cases h

/-! ## The laws -/

/-- What an allocation may do to the table. -/
structure AllocateLaw (s : RustCache R) (es : List CacheEvent) (s' : RustCache R) : Prop where
  /-- no pinned page goes -/
  pinned : ∀ e ∈ s.pages.entries, e.2.inUse = true → e ∈ s'.pages.entries
  /-- one that fails changes nothing -/
  refused : ∀ message, .answered (.latentCacheError message) ∈ es → s' = s
  /-- a full pool gives up one page, and every other one stays as it is -/
  full : ∀ pageId, .answered (.page pageId) ∈ es →
    s.capacity ≤ s.pages.entries.length → ∃ victim ∈ s.pages.entries.map Prod.fst,
      ∀ e, e.1 ≠ pageId → (e ∈ s'.pages.entries ↔ e ∈ s.pages.entries ∧ e.1 ≠ victim)
  /-- any other pool gives up none -/
  spare : ∀ pageId, .answered (.page pageId) ∈ es →
    s.pages.entries.length < s.capacity →
      ∀ e, e.1 ≠ pageId → (e ∈ s'.pages.entries ↔ e ∈ s.pages.entries)
  /-- the page allocated was not in the table, and is -/
  placed : ∀ pageId, .answered (.page pageId) ∈ es →
    pageId ∉ s.pages.entries.map Prod.fst ∧ pageId ∈ s'.pages.entries.map Prod.fst
  /-- one that finds room or an unpinned page does not fail -/
  granted : s.pages.entries.length < s.capacity ∨ (∃ e ∈ s.pages.entries, e.2.inUse = false) →
    ∃ pageId, .answered (.page pageId) ∈ es

/-- What the release of a request may do to the table. -/
structure ReleaseLaw (requestId : R) (s : RustCache R) (es : List CacheEvent)
    (s' : RustCache R) : Prop where
  /-- exactly the pages of the request go -/
  pages : ∀ e, e ∈ s'.pages.entries ↔ e ∈ s.pages.entries ∧ e.2.requestId ≠ requestId
  /-- and the answer counts them -/
  counted : es = [.answered (.released
    (s.pages.entries.length - s'.pages.entries.length))]

/-- What a call may do to the table.  The calls that are neither an allocation nor a
release keep every page in it. -/
def CallLaw (s : RustCache R) (es : List CacheEvent) (s' : RustCache R) :
    CacheCall R → Prop
  | .allocate _ _ _ _ => AllocateLaw s es s'
  | .releaseRequest requestId => ReleaseLaw requestId s es s'
  | .touch _ _ | .unpin _ | .stats =>
      s'.pages.entries.map Prod.fst = s.pages.entries.map Prod.fst

/-- The ids handed out, in order. -/
def allocatedIds (es : List CacheEvent) : List Nat :=
  es.filterMap fun
    | .answered (.page pageId) => some pageId
    | _ => none

theorem allocatedIds_append (es fs : List CacheEvent) :
    allocatedIds (es ++ fs) = allocatedIds es ++ allocatedIds fs :=
  List.filterMap_append

/-- What holds of a cache of some capacity after a history. -/
structure CacheInvariants (capacity : Nat) (es : List CacheEvent) (s : RustCache R) : Prop where
  bounded : s.pages.values.length ≤ capacity
  /-- the pool is split into what is allocated and what is free -/
  accounted : s.stats.capacity = capacity ∧ s.stats.allocated = s.pages.values.length ∧
    s.stats.allocated + s.stats.free = s.stats.capacity
  /-- no id is handed out twice, nor after a greater one -/
  increasing : (allocatedIds es).Pairwise (· < ·)

/-! ## One call -/

namespace RustCache.WellFormed

variable {s : RustCache R}

theorem mem_place (h : s.WellFormed) (requestId : R) (frameIndex step : Int)
    (e : Nat × LatentPage R) :
    e ∈ (s.place requestId frameIndex step).pages.entries ↔
      e ∈ s.pages.entries ∨ e = (s.nextId, ⟨s.nextId, requestId, frameIndex, step, true⟩) := by
  rw [h.place_entries, List.mem_append, List.mem_singleton]

theorem nextId_absent (h : s.WellFormed) : s.nextId ∉ s.pages.entries.map Prod.fst :=
  fun hmem => Nat.lt_irrefl _ (h.below _ hmem)

theorem nextId_placed (h : s.WellFormed) (requestId : R) (frameIndex step : Int) :
    s.nextId ∈ (s.place requestId frameIndex step).pages.entries.map Prod.fst := by
  rw [h.place_entries]
  simp

/-- An allocation in a pool with room. -/
theorem allocateLaw_spare (h : s.WellFormed) (hroom : s.pages.entries.length < s.capacity)
    (requestId : R) (frameIndex step : Int) :
    AllocateLaw s [.answered (.page s.nextId)] (s.place requestId frameIndex step) where
  pinned := fun e he _ => (h.mem_place requestId frameIndex step e).mpr (.inl he)
  refused := by simp
  full := fun _ _ hfull => absurd hroom (Nat.not_lt.mpr hfull)
  spare := by
    intro pageId hanswer _ e hne
    simp only [List.mem_singleton, CacheEvent.answered.injEq, CacheAnswer.page.injEq] at hanswer
    rw [h.mem_place]
    constructor
    · rintro (hold | rfl)
      · exact hold
      · exact absurd hanswer.symm hne
    · exact Or.inl
  placed := by
    intro pageId hanswer
    simp only [List.mem_singleton, CacheEvent.answered.injEq, CacheAnswer.page.injEq] at hanswer
    subst hanswer
    exact ⟨h.nextId_absent, h.nextId_placed requestId frameIndex step⟩
  granted := fun _ => ⟨s.nextId, List.mem_singleton_self _⟩

/-- An allocation in a full pool, with its victim. -/
theorem allocateLaw_full (h : s.WellFormed) (hfull : s.capacity ≤ s.pages.entries.length)
    {currentFrame : Int} {victim : Nat}
    (hvictim : rustVictim s.pages.values currentFrame = .ok victim)
    (requestId : R) (frameIndex step : Int) :
    AllocateLaw s [.evicted victim, .answered (.page s.nextId)]
      (RustCache.place { s with pages := s.pages.remove victim } requestId frameIndex step) := by
  obtain ⟨p, hp, hfree, rfl⟩ := rustVictim_ok hvictim
  have hremoved : RustCache.WellFormed { s with pages := s.pages.remove p.pageId } :=
    h.sublist List.filter_sublist
  have hmem : ∀ e, e ∈ (RustCache.place { s with pages := s.pages.remove p.pageId }
      requestId frameIndex step).pages.entries ↔ (e ∈ s.pages.entries ∧ e.1 ≠ p.pageId) ∨
        e = (s.nextId, ⟨s.nextId, requestId, frameIndex, step, true⟩) := by
    intro e
    rw [hremoved.mem_place]
    exact or_congr_left mem_eraseEntry
  constructor
  · intro e he hpinned
    refine (hmem e).mpr (.inl ⟨he, ?_⟩)
    intro hkey
    -- two pages filed under one key would be one page
    obtain ⟨d, hd, rfl⟩ := List.mem_map.mp hp
    have hsame : e = d := List.inj_on_of_nodup_map s.pages.nodup he hd
      (hkey.trans (h.ids d hd))
    rw [hsame, hfree] at hpinned
    cases hpinned
  · simp
  · intro pageId hanswer _
    simp only [List.mem_cons, reduceCtorEq, CacheEvent.answered.injEq,
      CacheAnswer.page.injEq, false_or, List.not_mem_nil, or_false] at hanswer
    refine ⟨p.pageId, h.mem_of_value hp, ?_⟩
    intro e hne
    rw [hmem]
    constructor
    · rintro (hold | rfl)
      · exact hold
      · exact absurd hanswer.symm hne
    · exact Or.inl
  · intro _ _ hroom
    exact absurd hroom (Nat.not_lt.mpr hfull)
  · intro pageId hanswer
    simp only [List.mem_cons, reduceCtorEq, CacheEvent.answered.injEq,
      CacheAnswer.page.injEq, false_or, List.not_mem_nil, or_false] at hanswer
    subst hanswer
    exact ⟨h.nextId_absent, hremoved.nextId_placed requestId frameIndex step⟩
  · exact fun _ => ⟨s.nextId, List.mem_cons_of_mem _ (List.mem_singleton_self _)⟩

/-- An allocation that is refused: the pool is full and every page pinned. -/
theorem allocateLaw_refused (hfull : s.capacity ≤ s.pages.entries.length)
    (hpinned : ∀ e ∈ s.pages.entries, e.2.inUse = true) (e : LatentCacheError) :
    AllocateLaw s [.answered (.latentCacheError e.message)] s where
  pinned := fun _ he _ => he
  refused := fun _ _ => rfl
  full := by simp
  spare := by simp
  placed := by simp
  granted := by
    rintro (hroom | ⟨entry, hentry, hfree⟩)
    · exact absurd hroom (Nat.not_lt.mpr hfull)
    · cases (hpinned entry hentry).symm.trans hfree

end RustCache.WellFormed

/-- Removing keys one by one leaves the entries of the others. -/
theorem removeAll_entries (ks : List Nat) (m : SortedMap Nat (LatentPage R)) :
    (ks.foldl SortedMap.remove m).entries = m.entries.filter fun e => e.1 ∉ ks := by
  induction ks generalizing m with
  | nil => simp
  | cons k ks ih =>
      rw [List.foldl_cons, ih]
      change (eraseEntry k m.entries).filter _ = _
      rw [eraseEntry, List.filter_filter]
      apply List.filter_congr
      intro e _
      simp only [List.mem_cons, not_or, decide_not, Bool.decide_and, ne_eq]
      rw [Bool.and_comm]

/-- The entries that go with a request are those of its pages. -/
theorem RustCache.releaseRequest_entries [DecidableEq R] (s : RustCache R) (requestId : R) :
    (s.releaseRequest requestId).2.pages.entries =
      s.pages.entries.filter fun e => e.2.requestId ≠ requestId := by
  change (List.foldl SortedMap.remove s.pages _).entries = _
  rw [removeAll_entries]
  apply List.filter_congr
  intro e he
  have hkey : e.1 ∈ (s.pages.entries.filter fun d => d.2.requestId = requestId).map Prod.fst ↔
      e.2.requestId = requestId := by
    constructor
    · intro hmem
      obtain ⟨d, hd, hsame⟩ := List.mem_map.mp hmem
      obtain ⟨hd, hrequest⟩ := List.mem_filter.mp hd
      cases List.inj_on_of_nodup_map s.pages.nodup hd he hsame
      simpa using hrequest
    · intro hrequest
      exact List.mem_map_of_mem (List.mem_filter.mpr ⟨he, by simpa using hrequest⟩)
  simp [hkey]

theorem RustCache.releaseLaw [DecidableEq R] (s : RustCache R) (requestId : R) :
    ReleaseLaw requestId s [.answered (.released (s.releaseRequest requestId).1)]
      (s.releaseRequest requestId).2 where
  pages := by
    intro e
    rw [s.releaseRequest_entries, List.mem_filter]
    simp
  counted := by
    have hsplit := List.length_eq_length_filter_add (l := s.pages.entries)
      (fun e => decide (e.2.requestId = requestId))
    have hcount : (s.releaseRequest requestId).1 =
        (s.pages.entries.filter fun e => e.2.requestId = requestId).length := List.length_map ..
    have hothers : (s.releaseRequest requestId).2.pages.entries.length =
        (s.pages.entries.filter fun e => !decide (e.2.requestId = requestId)).length := by
      rw [s.releaseRequest_entries]
      simp
    have hnumber : (s.releaseRequest requestId).1 =
        s.pages.entries.length - (s.releaseRequest requestId).2.pages.entries.length := by
      omega
    rw [hnumber]

/-- The two outcomes of an allocation and its refusal. -/
theorem RustCache.step_allocate [DecidableEq R] {s s' : RustCache R} {requestId : R}
    {frameIndex step currentFrame : Int} {es : List CacheEvent}
    (h : s.step (.allocate requestId frameIndex step currentFrame) = some (es, s')) :
    (s.capacity ≤ s.pages.entries.length ∧ (∀ e ∈ s.pages.entries, e.2.inUse = true) ∧ s' = s ∧
        ∃ e : LatentCacheError, es = [.answered (.latentCacheError e.message)]) ∨
      (s.pages.entries.length < s.capacity ∧ es = [.answered (.page s.nextId)] ∧
        s' = s.place requestId frameIndex step) ∨
      ∃ victim, s.capacity ≤ s.pages.entries.length ∧
        rustVictim s.pages.values currentFrame = .ok victim ∧
        es = [.evicted victim, .answered (.page s.nextId)] ∧
        s' = RustCache.place { s with pages := s.pages.remove victim }
          requestId frameIndex step := by
  have hlength : s.pages.values.length = s.pages.entries.length := List.length_map ..
  rw [RustCache.step, allocate, hlength] at h
  by_cases hfull : s.capacity ≤ s.pages.entries.length
  · rw [if_pos hfull] at h
    cases hvictim : rustVictim s.pages.values currentFrame with
    | error e =>
        rw [hvictim] at h
        cases h
        exact .inl ⟨hfull, fun d hd => rustVictim_error hvictim d.2 (List.mem_map_of_mem hd), rfl,
          e, rfl⟩
    | ok victim =>
        rw [hvictim] at h
        cases h
        exact .inr (.inr ⟨victim, hfull, rfl, rfl, rfl⟩)
  · rw [if_neg hfull] at h
    cases h
    exact .inr (.inl ⟨Nat.lt_of_not_le hfull, rfl, rfl⟩)

/-- Every call on a well-formed table obeys its law, and leaves a well-formed table of the
same capacity. -/
theorem RustCache.WellFormed.step [DecidableEq R] {s s' : RustCache R} {call : CacheCall R}
    {es : List CacheEvent} (h : s.WellFormed) (hstep : s.step call = some (es, s')) :
    s'.WellFormed ∧ s'.capacity = s.capacity ∧ CallLaw s es s' call := by
  cases call with
  | allocate requestId frameIndex step currentFrame =>
      rcases RustCache.step_allocate hstep with
        ⟨hfull, hpinned, rfl, e, rfl⟩ | ⟨hroom, rfl, rfl⟩ | ⟨victim, hfull, hvictim, rfl, rfl⟩
      · exact ⟨h, rfl, RustCache.WellFormed.allocateLaw_refused hfull hpinned e⟩
      · exact ⟨h.place hroom requestId frameIndex step, rfl,
          h.allocateLaw_spare hroom requestId frameIndex step⟩
      · obtain ⟨p, hp, -, hid⟩ := rustVictim_ok hvictim
        have hroom := h.room (hid ▸ h.mem_of_value hp)
        have hremoved : RustCache.WellFormed { s with pages := s.pages.remove victim } :=
          h.sublist List.filter_sublist
        exact ⟨hremoved.place hroom requestId frameIndex step, rfl,
          h.allocateLaw_full hfull hvictim requestId frameIndex step⟩
  | touch pageId step =>
      cases hstep
      exact ⟨h.adjust (fun p => { p with lastUsedStep := step }) (fun _ => rfl) pageId, rfl,
        s.pages.map_fst_adjust pageId _⟩
  | unpin pageId =>
      cases hstep
      exact ⟨h.adjust (fun p => { p with inUse := false }) (fun _ => rfl) pageId, rfl,
        s.pages.map_fst_adjust pageId _⟩
  | releaseRequest requestId =>
      cases hstep
      exact ⟨h.sublist (removeAll_sublist _ _), rfl, s.releaseLaw requestId⟩
  | stats =>
      cases hstep
      exact ⟨h, rfl, rfl⟩

/-! ## Histories -/

/-- Ids are handed out in order and stay below the next one. -/
structure Numbered (es : List CacheEvent) (s : RustCache R) : Prop where
  increasing : (allocatedIds es).Pairwise (· < ·)
  below : ∀ pageId ∈ allocatedIds es, pageId < s.nextId

theorem Numbered.quiet {es fs : List CacheEvent} {s s' : RustCache R} (h : Numbered es s)
    (hnone : allocatedIds fs = []) (hnext : s'.nextId = s.nextId) : Numbered (es ++ fs) s' where
  increasing := by
    rw [allocatedIds_append, hnone, List.append_nil]
    exact h.increasing
  below := by
    rw [allocatedIds_append, hnone, List.append_nil, hnext]
    exact h.below

/-- The id handed out is the next one. -/
theorem Numbered.allocated {es fs : List CacheEvent} {s s' : RustCache R} (h : Numbered es s)
    (hone : allocatedIds fs = [s.nextId]) (hnext : s'.nextId = s.nextId + 1) :
    Numbered (es ++ fs) s' where
  increasing := by
    rw [allocatedIds_append, hone, List.pairwise_append]
    refine ⟨h.increasing, List.pairwise_singleton _ _, ?_⟩
    intro pageId hmem k hk
    rw [List.mem_singleton.mp hk]
    exact h.below pageId hmem
  below := by
    intro pageId hmem
    rw [allocatedIds_append, hone] at hmem
    rw [hnext]
    cases List.mem_append.mp hmem with
    | inl hold => exact Nat.lt_succ_of_lt (h.below pageId hold)
    | inr hnew => exact List.mem_singleton.mp hnew ▸ Nat.lt_succ_self _

theorem Numbered.step [DecidableEq R] {es fs : List CacheEvent} {s s' : RustCache R}
    {call : CacheCall R} (h : Numbered es s) (hstep : s.step call = some (fs, s')) :
    Numbered (es ++ fs) s' := by
  cases call with
  | allocate requestId frameIndex step currentFrame =>
      rcases RustCache.step_allocate hstep with
        ⟨-, -, rfl, e, rfl⟩ | ⟨-, rfl, rfl⟩ | ⟨victim, -, -, rfl, rfl⟩
      · exact h.quiet rfl rfl
      · exact h.allocated rfl rfl
      · exact h.allocated rfl rfl
  | touch pageId step =>
      cases hstep
      exact h.quiet rfl rfl
  | unpin pageId =>
      cases hstep
      exact h.quiet rfl rfl
  | releaseRequest requestId =>
      cases hstep
      exact h.quiet rfl rfl
  | stats =>
      cases hstep
      exact h.quiet rfl rfl

theorem CacheInvariants.of_wellFormed {capacity : Nat} {es : List CacheEvent}
    {s : RustCache R} (hwf : s.WellFormed) (hcapacity : s.capacity = capacity)
    (hnumbered : Numbered es s) : CacheInvariants capacity es s := by
  have hlength : s.pages.values.length = s.pages.entries.length := List.length_map ..
  have hbounded := hwf.bounded
  refine ⟨by omega, ⟨by simp [RustCache.stats, hcapacity], rfl, ?_⟩, hnumbered.increasing⟩
  simp only [RustCache.stats]
  omega

/-- A call is answered in every state. -/
theorem RustCache.step_total [DecidableEq R] (s : RustCache R) (call : CacheCall R) :
    ∃ es s', s.step call = some (es, s') := by
  cases call with
  | allocate requestId frameIndex step currentFrame =>
      rw [RustCache.step]
      split
      · exact ⟨_, _, rfl⟩
      · exact ⟨_, _, rfl⟩
      · exact ⟨_, _, rfl⟩
  | touch pageId step => exact ⟨_, _, rfl⟩
  | unpin pageId => exact ⟨_, _, rfl⟩
  | releaseRequest requestId => exact ⟨_, _, rfl⟩
  | stats => exact ⟨_, _, rfl⟩

theorem rustCache_run_total [DecidableEq R] (capacity : Nat) :
    ∀ (calls : List (CacheCall R)) (s : RustCache R),
      ∃ es t, (rustCache capacity).run s calls = some (es, t) := by
  intro calls
  induction calls with
  | nil => exact fun s => ⟨[], s, rfl⟩
  | cons call calls ih =>
      intro s
      obtain ⟨es, s₁, hstep⟩ := s.step_total call
      obtain ⟨fs, t, hrun⟩ := ih s₁
      exact ⟨es ++ fs, t, Machine.run_cons_eq_some.mpr ⟨es, s₁, fs, hstep, hrun, rfl⟩⟩

/-- The page table keeps its invariants: every history of calls is answered, after it the
pool is not overdrawn and the ids handed out increase, and every call of it obeyed its
law. -/
theorem rustCache_invariants [DecidableEq R] (capacity : Nat) (calls : List (CacheCall R)) :
    ∃ es s, (rustCache capacity).run (rustCache capacity).init calls = some (es, s) ∧
      CacheInvariants capacity es s ∧
      (rustCache capacity).Along
        (fun s call s' => ∀ es, s.step call = some (es, s') → CallLaw s es s' call)
        (rustCache capacity).init calls := by
  obtain ⟨es, s, hrun⟩ := rustCache_run_total capacity calls (rustCache capacity).init
  refine ⟨es, s, hrun, ?_, ?_⟩
  · have hboth : (s.WellFormed ∧ s.capacity = capacity) ∧ Numbered es s := by
      apply Machine.history_reachable (C := fun _ _ => True)
        (H := fun es s => (s.WellFormed ∧ s.capacity = capacity) ∧ Numbered es s)
        ⟨⟨RustCache.WellFormed.init capacity, rfl⟩, List.Pairwise.nil,
          fun _ h => absurd h List.not_mem_nil⟩ ?_ (Machine.meets_of_forall fun _ _ _ => trivial)
        hrun
      intro h s call fs t hs _ hstep
      obtain ⟨hwf, hkept, -⟩ := hs.1.1.step hstep
      exact ⟨⟨hwf, hkept.trans hs.1.2⟩, hs.2.step hstep⟩
    exact .of_wellFormed hboth.1.1 hboth.1.2 hboth.2
  · apply Machine.along_of_invariant (I := RustCache.WellFormed) ?_ calls _
      (RustCache.WellFormed.init capacity)
    intro s call es t hwf hstep
    refine ⟨(hwf.step hstep).1, ?_⟩
    intro es' hstep'
    exact (hwf.step hstep').2.2

end Repercep.Cache
