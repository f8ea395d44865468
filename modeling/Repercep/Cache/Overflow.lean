import Repercep.Cache.Invariants
set_option autoImplicit false

/-!
# The distances the policy compares

`FrameAwareEviction::victim` subtracts two `i64` that its callers chose.  A build with
overflow checks panics where the difference does not fit, inside `allocate` and before
the table has changed; a release build goes on with the difference modulo 2^64.  The loop
is modelled once for both builds, with the comparisons it makes, so that an eviction can
be held against the order the policy documents: by the distance to the window, then by
the step of the last use.
-/

namespace Repercep.Cache

open Repercep.Foundation

variable {R : Type}

/-! ## The two builds -/

/-- How the crate was compiled: with overflow checks, or without. -/
inductive Build where
  | debug
  | release
  deriving DecidableEq, Repr

/-- The difference of two `i64`; `none` is the panic of a checked subtraction. -/
def Build.difference (build : Build) (a b : Int) : Option Int :=
  match build with
  | .debug => if -(2 ^ 63) ≤ a - b ∧ a - b < 2 ^ 63 then some (a - b) else none
  | .release => some (i64Sub a b)

/-- A comparison of the policy: two pages, and what it takes for their distances. -/
structure Comparison (R : Type) where
  page : LatentPage R
  best : LatentPage R
  pageDistance : Int
  bestDistance : Int

/-- One turn of the loop of `FrameAwareEviction::victim`: the best page so far and the
comparisons made. -/
def bestIn (build : Build) (currentFrame : Int)
    (found : Option (LatentPage R) × List (Comparison R)) (p : LatentPage R) :
    Option (Option (LatentPage R) × List (Comparison R)) :=
  (build.difference p.frameIndex currentFrame).bind fun pageDistance =>
    match found.1 with
    | none => some (some p, found.2)
    | some cur =>
        (build.difference cur.frameIndex currentFrame).map fun bestDistance =>
          (if pairLt (pageDistance, p.lastUsedStep) (bestDistance, cur.lastUsedStep) then some p
            else some cur,
            found.2 ++ [⟨p, cur, pageDistance, bestDistance⟩])

/-- The loop. -/
def searchIn (build : Build) (pages : List (LatentPage R)) (currentFrame : Int) :
    Option (Option (LatentPage R) × List (Comparison R)) :=
  (pages.filter fun p => !p.inUse).foldlM (bestIn build currentFrame) (none, [])

/-- `FrameAwareEviction::victim`. -/
def victimIn (build : Build) (pages : List (LatentPage R)) (currentFrame : Int) :
    Option (Except LatentCacheError Nat) :=
  (searchIn build pages currentFrame).map fun found =>
    match found.1 with
    | some p => .ok p.pageId
    | none => .error .fullyPinned

/-- The comparisons of a call that does not panic. -/
def comparisonsIn (build : Build) (pages : List (LatentPage R)) (currentFrame : Int) :
    List (Comparison R) :=
  match searchIn build pages currentFrame with
  | some found => found.2
  | none => []

/-- What a call does that a client, or the page table, can tell. -/
inductive BuildEvent where
  | told (event : CacheEvent)
  /-- the `PanicException` of the subtraction -/
  | panicked
  deriving DecidableEq, Repr

namespace RustCache

/-- `allocate`; `none` is a panic. -/
def allocateIn (build : Build) (s : RustCache R) (requestId : R)
    (frameIndex step currentFrame : Int) :
    Option (Except LatentCacheError (Option Nat × Nat × RustCache R)) :=
  if s.capacity ≤ s.pages.values.length then
    (victimIn build s.pages.values currentFrame).map fun
      | .error e => .error e
      | .ok victim =>
          .ok (some victim, s.nextId,
            { s with pages := s.pages.remove victim }.place requestId frameIndex step)
  else some (.ok (none, s.nextId, s.place requestId frameIndex step))

/-- One call.  A panic leaves the state as it is and gives the lock back. -/
def stepIn [DecidableEq R] (build : Build) (s : RustCache R) :
    CacheCall R → Option (List BuildEvent × RustCache R)
  | .allocate requestId frameIndex step currentFrame =>
      match s.allocateIn build requestId frameIndex step currentFrame with
      | none => some ([.panicked], s)
      | some (.error e) => some ([.told (.answered (.latentCacheError e.message))], s)
      | some (.ok (none, pageId, s')) => some ([.told (.answered (.page pageId))], s')
      | some (.ok (some victim, pageId, s')) =>
          some ([.told (.evicted victim), .told (.answered (.page pageId))], s')
  | .touch pageId step => some ([.told (.answered .done)], s.touch pageId step)
  | .unpin pageId => some ([.told (.answered .done)], s.unpin pageId)
  | .releaseRequest requestId =>
      some ([.told (.answered (.released (s.releaseRequest requestId).1))],
        (s.releaseRequest requestId).2)
  | .stats => some ([.told (.answered (.stats s.stats))], s)

end RustCache

/-- The calls of a cache of some capacity, in either build. -/
def cacheIn [DecidableEq R] (build : Build) (capacity : Nat) :
    Machine (RustCache R) (CacheCall R) BuildEvent where
  init := ⟨capacity, SortedMap.empty, 0⟩
  step := RustCache.stepIn build

/-! ## What an eviction should be -/

/-- The distances are those of the pages, as integers. -/
def Comparison.Exact (currentFrame : Int) (c : Comparison R) : Prop :=
  c.pageDistance = c.page.frameIndex - currentFrame ∧
    c.bestDistance = c.best.frameIndex - currentFrame

/-- The call evicts an unpinned page that none of the unpinned pages comes before, and
every comparison on the way was of the distances themselves. -/
structure OptimalEviction [DecidableEq R] (build : Build) (s : RustCache R) (requestId : R)
    (frameIndex step currentFrame : Int) (s' : RustCache R) : Prop where
  evicted : ∃ p, (p.pageId, p) ∈ s.pages.entries ∧ p.inUse = false ∧
    (∀ q ∈ s.pages.values, q.inUse = false →
      pairLt (frameKey currentFrame q) (frameKey currentFrame p) = false) ∧
    s.stepIn build (.allocate requestId frameIndex step currentFrame) =
      some ([.told (.evicted p.pageId), .told (.answered (.page s.nextId))], s') ∧
    s' = RustCache.place { s with pages := s.pages.remove p.pageId } requestId frameIndex step
  compared : ∀ c ∈ comparisonsIn build s.pages.values currentFrame, c.Exact currentFrame

/-- An allocation on a full pool with an unpinned page evicts optimally. -/
def EvictsOptimally [DecidableEq R] (build : Build) (s : RustCache R) (call : CacheCall R)
    (s' : RustCache R) : Prop :=
  match call with
  | .allocate requestId frameIndex step currentFrame =>
      s.capacity ≤ s.pages.values.length → (∃ p ∈ s.pages.values, p.inUse = false) →
        OptimalEviction build s requestId frameIndex step currentFrame s'
  | _ => True

/-- Where an allocation has to find a victim, the distance of every unpinned page fits in
an `i64`; a release build does not look at that of an only one. -/
def DistancesFit (build : Build) (s : RustCache R) (call : CacheCall R) : Prop :=
  match call with
  | .allocate _ _ _ currentFrame =>
      s.capacity ≤ s.pages.values.length →
        ∀ p ∈ s.pages.values, p.inUse = false → InI64 (p.frameIndex - currentFrame) ∨
          (build = .release ∧ (s.pages.values.filter fun q => !q.inUse) = [p])
  | _ => True

/-! ## One subtraction -/

theorem Build.difference_of_fits (build : Build) {a b : Int} (h : InI64 (a - b)) :
    build.difference a b = some (a - b) := by
  cases build with
  | debug => exact if_pos h
  | release => exact congrArg some (i64Sub_eq h)

theorem Build.fits_of_difference {build : Build} {a b : Int}
    (h : build.difference a b = some (a - b)) : InI64 (a - b) := by
  cases build with
  | debug =>
      rw [difference] at h
      split at h
      · assumption
      · cases h
  | release =>
      have hwrap : (a - b).bmod (2 ^ 64) = a - b := Option.some.inj h
      have hlow := @Int.le_bmod (a - b) (2 ^ 64) (by decide)
      have hhigh := @Int.bmod_lt (a - b) (2 ^ 64) (by decide)
      rw [hwrap] at hlow hhigh
      constructor
      · omega
      · omega

/-- Either build computes the wrapped difference, if any. -/
theorem Build.difference_wraps {build : Build} {a b d : Int}
    (h : build.difference a b = some d) : d = i64Sub a b := by
  cases build with
  | debug =>
      rw [difference] at h
      split at h
      · next hfits =>
          cases h
          exact (i64Sub_eq hfits).symm
      · cases h
  | release => exact (Option.some.inj h).symm

/-! ## The loop -/

/-- A turn of either build that does not panic finds what a turn of the release build
does. -/
theorem bestIn_best {build : Build} {currentFrame : Int} {p : LatentPage R}
    {found next : Option (LatentPage R) × List (Comparison R)}
    (h : bestIn build currentFrame found p = some next) :
    next.1 = rustBest currentFrame found.1 p := by
  obtain ⟨best, made⟩ := found
  obtain ⟨pageDistance, hpage, h⟩ := Option.bind_eq_some_iff.mp h
  cases best with
  | none =>
      cases h
      rfl
  | some cur =>
      obtain ⟨bestDistance, hbest, rfl⟩ := Option.map_eq_some_iff.mp h
      rw [Build.difference_wraps hpage, Build.difference_wraps hbest]
      rfl

theorem foldlM_bestIn_best {build : Build} {currentFrame : Int} (pages : List (LatentPage R)) :
    ∀ {found next : Option (LatentPage R) × List (Comparison R)},
      pages.foldlM (bestIn build currentFrame) found = some next →
        next.1 = pages.foldl (rustBest currentFrame) found.1 := by
  induction pages with
  | nil =>
      intro found next h
      cases h
      rfl
  | cons p pages ih =>
      intro found next h
      rw [List.foldlM_cons] at h
      obtain ⟨mid, hturn, hrest⟩ := Option.bind_eq_some_iff.mp h
      rw [ih hrest, bestIn_best hturn]
      rfl

/-- The victim of either build is that of the release build. -/
theorem victimIn_eq {build : Build} {pages : List (LatentPage R)} {currentFrame : Int}
    {victim : Except LatentCacheError Nat} (h : victimIn build pages currentFrame = some victim) :
    victim = rustVictim pages currentFrame := by
  obtain ⟨found, hfound, rfl⟩ := Option.map_eq_some_iff.mp h
  have hbest : found.1 = (pages.filter fun p => !p.inUse).foldl (rustBest currentFrame) none :=
    foldlM_bestIn_best _ hfound
  cases hfirst : found.1 with
  | none => rw [rustVictim, ← hbest, hfirst]
  | some p => rw [rustVictim, ← hbest, hfirst]

/-- A call panics and changes nothing, or is the call of the release build. -/
theorem RustCache.stepIn_cases [DecidableEq R] (build : Build) (s : RustCache R)
    (call : CacheCall R) :
    s.stepIn build call = some ([.panicked], s) ∨
      ∃ es s', s.step call = some (es, s') ∧
        s.stepIn build call = some (es.map .told, s') := by
  cases call with
  | allocate requestId frameIndex step currentFrame =>
      rw [stepIn, allocateIn, RustCache.step, allocate]
      by_cases hfull : s.capacity ≤ s.pages.values.length
      · rw [if_pos hfull, if_pos hfull]
        cases hvictim : victimIn build s.pages.values currentFrame with
        | none => exact .inl rfl
        | some victim =>
            rw [← victimIn_eq hvictim]
            cases victim with
            | error e => exact .inr ⟨_, _, rfl, rfl⟩
            | ok victim => exact .inr ⟨_, _, rfl, rfl⟩
      · rw [if_neg hfull, if_neg hfull]
        exact .inr ⟨_, _, rfl, rfl⟩
  | touch pageId step => exact .inr ⟨_, _, rfl, rfl⟩
  | unpin pageId => exact .inr ⟨_, _, rfl, rfl⟩
  | releaseRequest requestId => exact .inr ⟨_, _, rfl, rfl⟩
  | stats => exact .inr ⟨_, _, rfl, rfl⟩

theorem RustCache.WellFormed.stepIn [DecidableEq R] {build : Build} {s s' : RustCache R}
    {call : CacheCall R} {es : List BuildEvent} (h : s.WellFormed)
    (hstep : s.stepIn build call = some (es, s')) : s'.WellFormed := by
  rcases s.stepIn_cases build call with hpanic | ⟨fs, t, hplain, hsame⟩
  · rw [hpanic] at hstep
    cases hstep
    exact h
  · rw [hsame] at hstep
    cases hstep
    exact (h.step hplain).1

/-- A turn whose two distances fit compares these. -/
theorem bestIn_of_fits (build : Build) {currentFrame : Int} {cur p : LatentPage R}
    (made : List (Comparison R)) (hp : InI64 (p.frameIndex - currentFrame))
    (hcur : InI64 (cur.frameIndex - currentFrame)) :
    bestIn build currentFrame (some cur, made) p =
      some (some (if pairLt (frameKey currentFrame p) (frameKey currentFrame cur) then p
          else cur),
        made ++ [⟨p, cur, p.frameIndex - currentFrame, cur.frameIndex - currentFrame⟩]) := by
  simp only [bestIn, build.difference_of_fits hp, build.difference_of_fits hcur,
    Option.bind_some, Option.map_some]
  change some ((if pairLt (frameKey currentFrame p) (frameKey currentFrame cur) = true then
    some p else some cur), _) = _
  split <;> rfl

/-- Where every distance fits, the loop ends with the least page and has compared nothing
else. -/
theorem foldlM_bestIn_of_fits (build : Build) {currentFrame : Int}
    (rest : List (LatentPage R)) :
    ∀ {cur : LatentPage R} {made : List (Comparison R)},
      (∀ p ∈ cur :: rest, InI64 (p.frameIndex - currentFrame)) →
      (∀ c ∈ made, c.Exact currentFrame) →
        ∃ all, rest.foldlM (bestIn build currentFrame) (some cur, made) =
            some (some (pythonMin (frameKey currentFrame) cur rest), all) ∧
          ∀ c ∈ all, c.Exact currentFrame := by
  induction rest with
  | nil => exact fun _ hmade => ⟨_, rfl, hmade⟩
  | cons y rest ih =>
      intro cur made hfits hmade
      have hcur := hfits cur List.mem_cons_self
      have hy := hfits y (List.mem_cons_of_mem cur List.mem_cons_self)
      rw [List.foldlM_cons, bestIn_of_fits build made hy hcur]
      apply ih
      · intro p hp
        cases List.mem_cons.mp hp with
        | inl heq =>
            rw [heq]
            split
            · exact hy
            · exact hcur
        | inr hrest => exact hfits p (List.mem_cons_of_mem cur (List.mem_cons_of_mem y hrest))
      · intro c hc
        cases List.mem_append.mp hc with
        | inl hold => exact hmade c hold
        | inr hnew =>
            rw [List.mem_singleton.mp hnew]
            exact ⟨rfl, rfl⟩

/-- What a turn with a candidate does: it makes one comparison, of the page with the
candidate, and keeps one of the two. -/
theorem bestIn_some {build : Build} {currentFrame : Int} {cur p : LatentPage R}
    {made : List (Comparison R)} {next : Option (LatentPage R) × List (Comparison R)}
    (h : bestIn build currentFrame (some cur, made) p = some next) :
    ∃ pageDistance bestDistance best,
      build.difference p.frameIndex currentFrame = some pageDistance ∧
      build.difference cur.frameIndex currentFrame = some bestDistance ∧
      next = (some best, made ++ [⟨p, cur, pageDistance, bestDistance⟩]) ∧
      (best = p ∨ best = cur) := by
  obtain ⟨pageDistance, hpage, h⟩ := Option.bind_eq_some_iff.mp h
  obtain ⟨bestDistance, hbest, rfl⟩ := Option.map_eq_some_iff.mp h
  by_cases hlt : pairLt (pageDistance, p.lastUsedStep) (bestDistance, cur.lastUsedStep) = true
  · exact ⟨pageDistance, bestDistance, p, hpage, hbest, by simp [hlt], .inl rfl⟩
  · exact ⟨pageDistance, bestDistance, cur, hpage, hbest, by simp [hlt], .inr rfl⟩

/-- A loop that compares two pages or more compares every one of them, so exact
comparisons mean that all the distances fit. -/
theorem fits_of_foldlM {build : Build} {currentFrame : Int} (rest : List (LatentPage R)) :
    ∀ {cur : LatentPage R} {made : List (Comparison R)}
      {next : Option (LatentPage R) × List (Comparison R)},
      rest.foldlM (bestIn build currentFrame) (some cur, made) = some next →
      (∀ c ∈ next.2, c.Exact currentFrame) →
        made ⊆ next.2 ∧
          (rest ≠ [] → ∀ p ∈ cur :: rest, InI64 (p.frameIndex - currentFrame)) := by
  induction rest with
  | nil =>
      intro cur made next h _
      cases h
      exact ⟨fun _ hc => hc, fun hne => absurd rfl hne⟩
  | cons y rest ih =>
      intro cur made next h hexact
      rw [List.foldlM_cons] at h
      obtain ⟨mid, hturn, hrest⟩ := Option.bind_eq_some_iff.mp h
      obtain ⟨pageDistance, bestDistance, best, hpage, hbest, rfl, hkept⟩ := bestIn_some hturn
      obtain ⟨hsub, hall⟩ := ih hrest hexact
      obtain ⟨hpageExact, hbestExact⟩ := hexact ⟨y, cur, pageDistance, bestDistance⟩
        (hsub (List.mem_append_right made (List.mem_singleton_self _)))
      simp only at hpageExact hbestExact
      rw [hpageExact] at hpage
      rw [hbestExact] at hbest
      have hy := Build.fits_of_difference hpage
      have hcur := Build.fits_of_difference hbest
      refine ⟨fun c hc => hsub (List.mem_append_left _ hc), ?_⟩
      intro _ p hp
      rcases List.mem_cons.mp hp with rfl | hp
      · exact hcur
      · rcases List.mem_cons.mp hp with rfl | hp
        · exact hy
        · exact hall (List.ne_nil_of_mem hp) p (List.mem_cons_of_mem best hp)

/-! ## One allocation -/

/-- Whether the loop can be relied on, for a list of unpinned pages that is not empty. -/
theorem searchIn_of_fits {build : Build} {pages : List (LatentPage R)} {currentFrame : Int}
    {x : LatentPage R} {rest : List (LatentPage R)}
    (hfree : (pages.filter fun p => !p.inUse) = x :: rest)
    (hfits : ∀ p ∈ x :: rest, InI64 (p.frameIndex - currentFrame) ∨
      (build = .release ∧ x :: rest = [p])) :
    ∃ all, searchIn build pages currentFrame =
        some (some (pythonMin (frameKey currentFrame) x rest), all) ∧
      ∀ c ∈ all, c.Exact currentFrame := by
  rw [searchIn, hfree, List.foldlM_cons]
  by_cases hall : ∀ p ∈ x :: rest, InI64 (p.frameIndex - currentFrame)
  · have hfirst : bestIn build currentFrame (none, []) x = some (some x, []) := by
      rw [bestIn, build.difference_of_fits (hall x List.mem_cons_self)]
      rfl
    rw [hfirst]
    exact foldlM_bestIn_of_fits build rest hall (by simp)
  · -- only in a release build, with one page, may a distance not fit
    simp only [not_forall] at hall
    obtain ⟨p, hp, hwide⟩ := hall
    obtain ⟨rfl, honly⟩ := (hfits p hp).resolve_left hwide
    cases honly
    exact ⟨[], rfl, by simp⟩

theorem fits_of_searchIn {build : Build} {pages : List (LatentPage R)} {currentFrame : Int}
    {found : Option (LatentPage R) × List (Comparison R)}
    (hfound : searchIn build pages currentFrame = some found)
    (hexact : ∀ c ∈ found.2, c.Exact currentFrame) {p : LatentPage R}
    (hp : p ∈ pages.filter fun p => !p.inUse) :
    InI64 (p.frameIndex - currentFrame) ∨
      (build = .release ∧ (pages.filter fun p => !p.inUse) = [p]) := by
  rw [searchIn] at hfound
  cases hfree : pages.filter fun p => !p.inUse with
  | nil =>
      rw [hfree] at hp
      exact absurd hp List.not_mem_nil
  | cons x rest =>
      rw [hfree] at hp hfound
      rw [List.foldlM_cons] at hfound
      obtain ⟨mid, hturn, hrest⟩ := Option.bind_eq_some_iff.mp hfound
      obtain ⟨distance, hdistance, hmid⟩ := Option.bind_eq_some_iff.mp hturn
      cases hmid
      cases rest with
      | cons y rest => exact .inl ((fits_of_foldlM _ hrest hexact).2 (by simp) p hp)
      | nil =>
          cases List.mem_singleton.mp hp
          cases build with
          | release => exact .inr ⟨rfl, rfl⟩
          | debug =>
              rw [Build.difference] at hdistance
              split at hdistance
              · next hfits => exact .inl hfits
              · cases hdistance

/-- A page of a well-formed table is filed under its id. -/
theorem RustCache.WellFormed.entry_of_value {s : RustCache R} (h : s.WellFormed)
    {p : LatentPage R} (hp : p ∈ s.pages.values) : (p.pageId, p) ∈ s.pages.entries := by
  obtain ⟨⟨k, q⟩, hentry, rfl⟩ := List.mem_map.mp hp
  have hkey : q.pageId = k := h.ids (k, q) hentry
  rw [hkey]
  exact hentry

/-- An allocation that the policy serves. -/
theorem RustCache.stepIn_allocate [DecidableEq R] {build : Build} {s : RustCache R}
    {requestId : R} {frameIndex step currentFrame : Int} {victim : Nat}
    (hfull : s.capacity ≤ s.pages.values.length)
    (hvictim : victimIn build s.pages.values currentFrame = some (.ok victim)) :
    s.stepIn build (.allocate requestId frameIndex step currentFrame) =
      some ([.told (.evicted victim), .told (.answered (.page s.nextId))],
        RustCache.place { s with pages := s.pages.remove victim } requestId frameIndex step) := by
  rw [stepIn, allocateIn, if_pos hfull, hvictim]
  rfl

/-- One that does not panic has gone through the loop. -/
theorem RustCache.searched [DecidableEq R] {build : Build} {s s' : RustCache R}
    {requestId : R} {frameIndex step currentFrame : Int} {e : CacheEvent}
    {es : List BuildEvent} (hfull : s.capacity ≤ s.pages.values.length)
    (hstep : s.stepIn build (.allocate requestId frameIndex step currentFrame) =
      some (.told e :: es, s')) :
    ∃ found, searchIn build s.pages.values currentFrame = some found := by
  cases hsearch : searchIn build s.pages.values currentFrame with
  | some found => exact ⟨found, rfl⟩
  | none =>
      rw [stepIn, allocateIn, if_pos hfull, victimIn, hsearch] at hstep
      simp at hstep

/-- On a well-formed table a call evicts optimally exactly where the distances fit. -/
theorem RustCache.WellFormed.evictsOptimally_iff [DecidableEq R] {build : Build}
    {s s' : RustCache R} {call : CacheCall R} {es : List BuildEvent} (hwf : s.WellFormed)
    (hstep : s.stepIn build call = some (es, s')) :
    EvictsOptimally build s call s' ↔ DistancesFit build s call := by
  cases call with
  | touch | unpin | releaseRequest | stats => exact Iff.rfl
  | allocate requestId frameIndex step currentFrame =>
      constructor
      · intro h hfull p hp hfree
        obtain ⟨⟨victim, -, -, -, hevicted, -⟩, hexact⟩ := h hfull ⟨p, hp, hfree⟩
        obtain ⟨found, hfound⟩ := RustCache.searched hfull hevicted
        rw [comparisonsIn, hfound] at hexact
        exact fits_of_searchIn hfound hexact (List.mem_filter.mpr ⟨hp, by simpa using hfree⟩)
      · rintro hfits hfull ⟨p, hp, hfree⟩
        have hmem : ∀ q, q ∈ s.pages.values.filter (fun q => !q.inUse) ↔
            q ∈ s.pages.values ∧ q.inUse = false := by simp
        cases hunpinned : s.pages.values.filter fun q => !q.inUse with
        | nil =>
            have hnone := (hmem p).mpr ⟨hp, hfree⟩
            rw [hunpinned] at hnone
            exact absurd hnone List.not_mem_nil
        | cons x rest =>
            have hvalue : ∀ q ∈ x :: rest, q ∈ s.pages.values ∧ q.inUse = false := by
              intro q hq
              exact (hmem q).mp (hunpinned ▸ hq)
            obtain ⟨all, hsearch, hexact⟩ := searchIn_of_fits hunpinned fun q hq =>
              hunpinned ▸ hfits hfull q (hvalue q hq).1 (hvalue q hq).2
            have hvictim : victimIn build s.pages.values currentFrame =
                some (.ok (pythonMin (frameKey currentFrame) x rest).pageId) := by
              rw [victimIn, hsearch]
              rfl
            have hserved : s.stepIn build (.allocate requestId frameIndex step currentFrame) = _ :=
              RustCache.stepIn_allocate hfull hvictim
            cases hstep.symm.trans hserved
            obtain ⟨hlisted, hfreed⟩ :=
              hvalue _ (pythonMin_mem (frameKey currentFrame) x rest)
            refine ⟨⟨_, hwf.entry_of_value hlisted, hfreed, ?_, hserved, rfl⟩, ?_⟩
            · intro q hq hqfree
              exact pythonMin_least (frameKey currentFrame) x rest
                (hunpinned ▸ (hmem q).mpr ⟨hq, hqfree⟩)
            · rw [comparisonsIn, hsearch]
              exact hexact

/-! ## Histories of calls -/

/-- In either build, the allocations of a history all evict optimally if and only if each
finds distances that fit. -/
theorem optimalThroughout_iff [DecidableEq R] (build : Build) (capacity : Nat)
    (calls : List (CacheCall R)) :
    (cacheIn build capacity).Along (EvictsOptimally build) (cacheIn build capacity).init calls ↔
      (cacheIn build capacity).Meets (DistancesFit build) (cacheIn build capacity).init calls := by
  apply Machine.along_congr_of_invariant (I := RustCache.WellFormed) ?_ calls _
    (RustCache.WellFormed.init capacity)
  intro s call es t hwf hstep
  exact ⟨hwf.stepIn hstep, hwf.evictsOptimally_iff hstep⟩

/-- The arguments of a call are `i64`. -/
def CacheCall.InRange : CacheCall R → Prop
  | .allocate _ frameIndex step currentFrame =>
      InI64 frameIndex ∧ InI64 step ∧ InI64 currentFrame
  | .touch _ step => InI64 step
  | _ => True

/-- Page 0 is as far ahead of the window as a frame can be, page 1 is in it, and nobody
holds either. -/
def farAhead : List (CacheCall Nat) :=
  [.allocate 5 (2 ^ 63 - 1) 0 0, .allocate 5 0 0 0, .unpin 0, .unpin 1]

/-- The cache after these calls. -/
theorem farAhead_run (build : Build) :
    ∃ es s, (cacheIn build 2).run (cacheIn build 2).init farAhead = some (es, s) ∧
      s.capacity = 2 ∧
      s.pages.entries = [(0, ⟨0, 5, 2 ^ 63 - 1, 0, false⟩), (1, ⟨1, 5, 0, 0, false⟩)] ∧
      (s.stepIn build (.allocate 5 0 0 (-1))).map Prod.fst =
        some (match build with
          | .debug => [.panicked]
          | .release => [.told (.evicted 0), .told (.answered (.page 2))]) := by
  cases build with
  | debug => exact ⟨_, _, rfl, rfl, rfl, rfl⟩
  | release => exact ⟨_, _, rfl, rfl, rfl, rfl⟩

/-- An allocation whose window has moved to frame -1 sees page 0 at distance 2^63: the
debug build panics, and the release build takes it for the furthest behind. -/
theorem farAhead_notOptimal :
    (∀ call ∈ farAhead ++ [.allocate 5 0 0 (-1)], call.InRange) ∧
      ∀ build, ¬ (cacheIn build 2).Along (EvictsOptimally build) (cacheIn build 2).init
        (farAhead ++ [.allocate 5 0 0 (-1)]) := by
  refine ⟨by simp [farAhead, CacheCall.InRange, InI64], ?_⟩
  intro build halong
  obtain ⟨es, s, hrun, hcapacity, hentries, hevents⟩ := farAhead_run build
  obtain ⟨⟨fs, t⟩, hstep, hfs⟩ := Option.map_eq_some_iff.mp hevents
  obtain ⟨hoptimal, -⟩ := ((Machine.along_append hrun).mp halong).2 fs t hstep
  have hvalues : s.pages.values =
      [⟨0, 5, 2 ^ 63 - 1, 0, false⟩, ⟨1, 5, 0, 0, false⟩] := by
    rw [SortedMap.values, hentries]
    rfl
  have hfull : s.capacity ≤ s.pages.values.length := by
    rw [hcapacity, hvalues]
    exact Nat.le_refl 2
  obtain ⟨⟨p, hp, -, hleast, hevicted, -⟩, -⟩ :=
    hoptimal hfull ⟨⟨0, 5, 2 ^ 63 - 1, 0, false⟩, by simp [hvalues], rfl⟩
  have hsame : fs = [.told (.evicted p.pageId), .told (.answered (.page s.nextId))] :=
    congrArg Prod.fst (Option.some.inj (hstep.symm.trans hevicted))
  cases build with
  | debug => cases hfs.symm.trans hsame
  | release =>
      have hzero : p.pageId = 0 := by
        have heq := hfs.symm.trans hsame
        simp only [List.cons.injEq, BuildEvent.told.injEq, CacheEvent.evicted.injEq] at heq
        exact heq.1.symm
      have hpage : p = ⟨0, 5, 2 ^ 63 - 1, 0, false⟩ := by
        rw [hentries, hzero] at hp
        simpa using hp
      have hfirst := hleast ⟨1, 5, 0, 0, false⟩ (by simp [hvalues]) rfl
      rw [hpage] at hfirst
      exact absurd hfirst (by decide)

end Repercep.Cache
