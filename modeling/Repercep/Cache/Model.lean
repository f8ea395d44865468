import Mathlib.Algebra.Ring.Int.Defs
import Mathlib.Algebra.Ring.Nat
import Repercep.Foundation.KeyedMap
import Repercep.Foundation.Machine
set_option autoImplicit false

/-!
# The paged latent cache, twice

The models of `PagedLatentCache` in `crates/repercep-cache/src/lib.rs` and of the pure
Python cache in `runtime/latent_cache.py` that stands in for it, both with the default
`FrameAwareEviction`.  The Rust pages live in a `BTreeMap`, the Python ones in a `dict`;
the policy of either reads the pages in the order of its container and takes the first
of those that are least.

Frame indices and steps are `i64` on the Rust side, so there the distance of a frame to
the window is computed modulo 2^64.  Page ids count up from zero.
-/

namespace Repercep.Cache

open Repercep.Foundation

variable {R : Type}

/-- The bookkeeping of one latent tile. -/
structure LatentPage (R : Type) where
  pageId : Nat
  requestId : R
  frameIndex : Int
  lastUsedStep : Int
  inUse : Bool
  deriving DecidableEq, Repr

/-- A snapshot of the occupancy, as its reader sees it. -/
structure CacheStats where
  capacity : Int
  allocated : Int
  free : Int
  pinned : Int
  deriving DecidableEq, Repr

/-- The calls of either cache. -/
inductive CacheCall (R : Type) where
  | allocate (requestId : R) (frameIndex step currentFrame : Int)
  | touch (pageId : Nat) (step : Int)
  | unpin (pageId : Nat)
  | releaseRequest (requestId : R)
  | stats
  deriving DecidableEq, Repr

/-- What a call answers. -/
inductive CacheAnswer where
  | page (pageId : Nat)
  | done
  | released (count : Nat)
  | stats (stats : CacheStats)
  /-- `LatentCacheError` with its message -/
  | latentCacheError (message : String)
  /-- the `KeyError` of a `del` -/
  | keyError
  deriving DecidableEq, Repr

/-- What a call does that a client, or the page table, can tell. -/
inductive CacheEvent where
  | evicted (victim : Nat)
  | answered (answer : CacheAnswer)
  deriving DecidableEq, Repr

/-- The order of two pairs of integers, in Rust as in Python. -/
def pairLt (a b : Int × Int) : Bool :=
  a.1 < b.1 ∨ (a.1 = b.1 ∧ a.2 < b.2)

/-! ## The Rust cache -/

/-- The difference of two `i64`, modulo 2^64. -/
def i64Sub (a b : Int) : Int := (a - b).bmod (2 ^ 64)

/-- `LatentCacheError`. -/
inductive LatentCacheError where
  | fullyPinned
  deriving DecidableEq, Repr

/-- The text of `#[error(...)]`. -/
def LatentCacheError.message : LatentCacheError → String
  | .fullyPinned => "no evictable pages: cache is fully pinned"

/-- One turn of the loop of `FrameAwareEviction::victim`. -/
def rustBest (currentFrame : Int) (best : Option (LatentPage R)) (p : LatentPage R) :
    Option (LatentPage R) :=
  let keyP := (i64Sub p.frameIndex currentFrame, p.lastUsedStep)
  match best with
  | none => some p
  | some cur =>
      let keyCur := (i64Sub cur.frameIndex currentFrame, cur.lastUsedStep)
      if pairLt keyP keyCur then some p else some cur

/-- `FrameAwareEviction::victim`. -/
def rustVictim (pages : List (LatentPage R)) (currentFrame : Int) :
    Except LatentCacheError Nat :=
  match (pages.filter fun p => !p.inUse).foldl (rustBest currentFrame) none with
  | some p => .ok p.pageId
  | none => .error .fullyPinned

/-- `CacheState`. -/
structure RustCache (R : Type) where
  capacity : Nat
  pages : SortedMap Nat (LatentPage R)
  nextId : Nat

namespace RustCache

/-- A new page goes in under the next id. -/
def place (s : RustCache R) (requestId : R) (frameIndex step : Int) : RustCache R :=
  { s with
    pages := s.pages.insert s.nextId ⟨s.nextId, requestId, frameIndex, step, true⟩
    nextId := s.nextId + 1 }

/-- `allocate`: the victim it evicted, the id of the new page and the cache it leaves. -/
def allocate (s : RustCache R) (requestId : R) (frameIndex step currentFrame : Int) :
    Except LatentCacheError (Option Nat × Nat × RustCache R) :=
  if s.capacity ≤ s.pages.values.length then
    match rustVictim s.pages.values currentFrame with
    | .error e => .error e
    | .ok victim =>
        .ok (some victim, s.nextId,
          { s with pages := s.pages.remove victim }.place requestId frameIndex step)
  else .ok (none, s.nextId, s.place requestId frameIndex step)

/-- `touch`. -/
def touch (s : RustCache R) (pageId : Nat) (step : Int) : RustCache R :=
  { s with pages := s.pages.adjust pageId fun p => { p with lastUsedStep := step } }

/-- `unpin`. -/
def unpin (s : RustCache R) (pageId : Nat) : RustCache R :=
  { s with pages := s.pages.adjust pageId fun p => { p with inUse := false } }

/-- `release_request`. -/
def releaseRequest [DecidableEq R] (s : RustCache R) (requestId : R) :
    Nat × RustCache R :=
  let victims := (s.pages.entries.filter fun e => e.2.requestId = requestId).map Prod.fst
  (victims.length, { s with pages := victims.foldl SortedMap.remove s.pages })

/-- `stats`: the fields are `usize`. -/
def stats (s : RustCache R) : CacheStats :=
  let pinned := (s.pages.values.filter fun p => p.inUse).length
  let allocated := s.pages.values.length
  ⟨s.capacity, allocated, ((s.capacity - allocated : Nat) : Int), pinned⟩

/-- One call. -/
def step [DecidableEq R] (s : RustCache R) :
    CacheCall R → Option (List CacheEvent × RustCache R)
  | .allocate requestId frameIndex step currentFrame =>
      match s.allocate requestId frameIndex step currentFrame with
      | .error e => some ([.answered (.latentCacheError e.message)], s)
      | .ok (none, pageId, s') => some ([.answered (.page pageId)], s')
      | .ok (some victim, pageId, s') =>
          some ([.evicted victim, .answered (.page pageId)], s')
  | .touch pageId step => some ([.answered .done], s.touch pageId step)
  | .unpin pageId => some ([.answered .done], s.unpin pageId)
  | .releaseRequest requestId =>
      some ([.answered (.released (s.releaseRequest requestId).1)],
        (s.releaseRequest requestId).2)
  | .stats => some ([.answered (.stats s.stats)], s)

end RustCache

/-! ## The Python cache -/

/-- What the Python cache raises. -/
inductive PythonCacheError where
  | latentCacheError (message : String)
  | keyError
  deriving DecidableEq, Repr

/-- `min(x, *rest, key=...)`: the first of the least. -/
def pythonMin (key : LatentPage R → Int × Int) (x : LatentPage R)
    (rest : List (LatentPage R)) : LatentPage R :=
  rest.foldl (fun best p => if pairLt (key p) (key best) then p else best) x

/-- `FrameAwareEviction.victim`. -/
def pythonVictim (pages : List (LatentPage R)) (currentFrame : Int) :
    Except PythonCacheError Nat :=
  match pages.filter fun p => !p.inUse with
  | [] => .error (.latentCacheError "no evictable pages: cache is fully pinned")
  | x :: rest =>
      .ok (pythonMin (fun p => (p.frameIndex - currentFrame, p.lastUsedStep)) x rest).pageId

/-- `_PythonPagedLatentCache`. -/
structure PythonCache (R : Type) where
  capacity : Nat
  pages : InsertionMap Nat (LatentPage R)
  nextId : Nat

namespace PythonCache

/-- A new page goes in under the next id. -/
def place (s : PythonCache R) (requestId : R) (frameIndex step : Int) : PythonCache R :=
  { s with
    pages := s.pages.assign s.nextId ⟨s.nextId, requestId, frameIndex, step, true⟩
    nextId := s.nextId + 1 }

/-- `allocate`: the victim it evicted, the id of the new page and the cache it leaves. -/
def allocate (s : PythonCache R) (requestId : R) (frameIndex step currentFrame : Int) :
    Except PythonCacheError (Option Nat × Nat × PythonCache R) :=
  if s.capacity ≤ s.pages.values.length then
    match pythonVictim s.pages.values currentFrame with
    | .error e => .error e
    | .ok victim =>
        match s.pages.delete victim with
        | none => .error .keyError
        | some pages =>
            .ok (some victim, s.nextId,
              { s with pages := pages }.place requestId frameIndex step)
  else .ok (none, s.nextId, s.place requestId frameIndex step)

/-- `touch`. -/
def touch (s : PythonCache R) (pageId : Nat) (step : Int) : PythonCache R :=
  { s with pages := s.pages.adjust pageId fun p => { p with lastUsedStep := step } }

/-- `unpin`. -/
def unpin (s : PythonCache R) (pageId : Nat) : PythonCache R :=
  { s with pages := s.pages.adjust pageId fun p => { p with inUse := false } }

/-- `release_request`. -/
def releaseRequest [DecidableEq R] (s : PythonCache R) (requestId : R) :
    Except PythonCacheError (Nat × PythonCache R) :=
  let victims := (s.pages.entries.filter fun e => e.2.requestId = requestId).map Prod.fst
  match victims.foldlM InsertionMap.delete s.pages with
  | none => .error .keyError
  | some pages => .ok (victims.length, { s with pages := pages })

/-- `stats`. -/
def stats (s : PythonCache R) : CacheStats :=
  let pinned := (s.pages.values.filter fun p => p.inUse).length
  ⟨s.capacity, s.pages.values.length, (s.capacity : Int) - s.pages.values.length, pinned⟩

/-- An exception, as an answer. -/
def answerError : PythonCacheError → CacheAnswer
  | .latentCacheError message => .latentCacheError message
  | .keyError => .keyError

/-- One call. -/
def step [DecidableEq R] (s : PythonCache R) :
    CacheCall R → Option (List CacheEvent × PythonCache R)
  | .allocate requestId frameIndex step currentFrame =>
      match s.allocate requestId frameIndex step currentFrame with
      | .error e => some ([.answered (answerError e)], s)
      | .ok (none, pageId, s') => some ([.answered (.page pageId)], s')
      | .ok (some victim, pageId, s') =>
          some ([.evicted victim, .answered (.page pageId)], s')
  | .touch pageId step => some ([.answered .done], s.touch pageId step)
  | .unpin pageId => some ([.answered .done], s.unpin pageId)
  | .releaseRequest requestId =>
      match s.releaseRequest requestId with
      | .error e => some ([.answered (answerError e)], s)
      | .ok (count, s') => some ([.answered (.released count)], s')
  | .stats => some ([.answered (.stats s.stats)], s)

end PythonCache

/-! ## The machines -/

/-- The calls of a Rust cache of some capacity. -/
def rustCache [DecidableEq R] (capacity : Nat) :
    Machine (RustCache R) (CacheCall R) CacheEvent where
  init := ⟨capacity, SortedMap.empty, 0⟩
  step := RustCache.step

/-- The calls of a Python cache of some capacity. -/
def pythonCache [DecidableEq R] (capacity : Nat) :
    Machine (PythonCache R) (CacheCall R) CacheEvent where
  init := ⟨capacity, InsertionMap.empty, 0⟩
  step := PythonCache.step

end Repercep.Cache
