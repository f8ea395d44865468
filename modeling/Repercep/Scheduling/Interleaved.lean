import Repercep.Foundation.Notify
import Repercep.Scheduling.Queue
set_option autoImplicit false

/-!
# Scheduler: any number of threads

The scheduler with its methods cut at the points where threads can interleave.
`submit` and `cancel` read the shutdown flag before they take the lock; `submit`
notifies after it has dropped it; `next` creates its `Notified`, makes its attempt
under the lock and only then polls; `shutdown` stores the flag before it notifies.
A call keeps its phase, the last one of which is what it returned.
-/

namespace Repercep.Scheduling.Interleaved

open Repercep.Foundation

variable {P : Type}

/-- Where a call is. -/
inductive Phase (P : Type) where
  /-- before the load of the flag -/
  | submit (req : ScheduledRequest P)
  /-- the flag was not set; before the lock -/
  | push (req : ScheduledRequest P)
  /-- the lock is dropped; before `notify_one` -/
  | notify (req : ScheduledRequest P)
  | submitted (result : Except SchedulerError Unit)
  | cancel (id : RequestId)
  | mark (id : RequestId)
  | cancelled (result : Except SchedulerError Unit)
  /-- at the head of the loop of `next` -/
  | next
  /-- the `Notified` exists; before the lock -/
  | attempt (generation : Nat)
  /-- the attempt found nothing; before the poll -/
  | poll (generation : Nat)
  | parked (woken : Bool)
  | returned (item : Option (ScheduledRequest P))
  | shutdown
  /-- the flag is stored; before `notify_waiters` -/
  | notifyWaiters
  | stopped

/-- A call arrives, or takes its next step. -/
inductive Label (P : Type) where
  | submit (req : ScheduledRequest P)
  | cancel (id : RequestId)
  | next
  | shutdown
  | advance (i : Nat)

/-- What happened under the lock. -/
inductive Event (P : Type) where
  | accepted (req : ScheduledRequest P)
  | cancelled (id : RequestId)
  | delivered (req : ScheduledRequest P)

/-- The scheduler, the notification cell, and all calls made so far. -/
structure Sys (P : Type) where
  scheduler : Scheduler P
  notify : Notify Nat
  calls : List (Phase P)

/-- The calls after the wakeup of some. -/
def wake (woken : List Nat) (calls : List (Phase P)) : List (Phase P) :=
  woken.foldl (fun calls j => calls.set j (.parked true)) calls

namespace Sys

/-- A call begins. -/
def arrive (s : Sys P) (phase : Phase P) : Sys P := { s with calls := s.calls ++ [phase] }

/-- A call goes on at another place. -/
def goto (s : Sys P) (i : Nat) (phase : Phase P) : Sys P := { s with calls := s.calls.set i phase }

/-- The queues under the lock, replaced. -/
def setBuckets (s : Sys P) (b : Buckets P) : Sys P :=
  { s with scheduler := { s.scheduler with buckets := b } }

/-- The load of the flag at the start of `submit`. -/
def loadSubmit (s : Sys P) (i : Nat) (req : ScheduledRequest P) : Sys P :=
  s.goto i (if s.scheduler.shuttingDown then .submitted (.error .shuttingDown) else .push req)

/-- The locked section of `submit`. -/
def push (s : Sys P) (i : Nat) (req : ScheduledRequest P) : List (Event P) × Sys P :=
  if s.scheduler.capacity ≤ s.scheduler.buckets.len then
    ([], s.goto i (.submitted (.error (.queueFull s.scheduler.capacity))))
  else ([.accepted req], (s.setBuckets (s.scheduler.buckets.push req)).goto i (.notify req))

/-- The `notify_one` at the end of `submit`. -/
def notifyOne (s : Sys P) (i : Nat) : Sys P :=
  match s.notify.notifyOne with
  | (some j, n) => ({ s with notify := n }.goto j (.parked true)).goto i (.submitted (.ok ()))
  | (none, n) => { s with notify := n }.goto i (.submitted (.ok ()))

/-- The load of the flag at the start of `cancel`. -/
def loadCancel (s : Sys P) (i : Nat) (id : RequestId) : Sys P :=
  s.goto i (if s.scheduler.shuttingDown then .cancelled (.error .shuttingDown) else .mark id)

/-- The locked section of `cancel`. -/
def mark (s : Sys P) (i : Nat) (id : RequestId) : List (Event P) × Sys P :=
  if hknown : id ∈ s.scheduler.buckets.known then
    ([.cancelled id],
      (s.setBuckets (s.scheduler.buckets.mark id hknown)).goto i (.cancelled (.ok ())))
  else ([], s.goto i (.cancelled (.error (.notFound id))))

/-- The locked section of `next`: the pop, and the check of the flag when there is
nothing to pop. -/
def attempt (s : Sys P) (i g : Nat) : List (Event P) × Sys P :=
  match s.scheduler.buckets.popNext with
  | (some item, b) => ([.delivered item], (s.setBuckets b).goto i (.returned (some item)))
  | (none, b) =>
      ([], (s.setBuckets b).goto i
        (if s.scheduler.shuttingDown then .returned none else .poll g))

/-- The first poll of `notified`. -/
def poll (s : Sys P) (i g : Nat) : Sys P :=
  match s.notify.poll i g with
  | (true, n) => { s with notify := n }.goto i .next
  | (false, n) => { s with notify := n }.goto i (.parked false)

/-- `shutdown` stores the flag. -/
def storeFlag (s : Sys P) (i : Nat) : Sys P :=
  { s with scheduler := s.scheduler.shutdown }.goto i .notifyWaiters

/-- The `notify_waiters` at the end of `shutdown`. -/
def notifyWaiters (s : Sys P) (i : Nat) : Sys P :=
  { s with
    notify := s.notify.notifyWaiters.2
    calls := wake s.notify.notifyWaiters.1 s.calls }.goto i .stopped

/-- The next step of a call; a call that returned has none, nor has one that is parked
and not woken. -/
def advance (s : Sys P) (i : Nat) : Option (List (Event P) × Sys P) :=
  match s.calls[i]? with
  | some (.submit req) => some ([], s.loadSubmit i req)
  | some (.push req) => some (s.push i req)
  | some (.notify _) => some ([], s.notifyOne i)
  | some (.cancel id) => some ([], s.loadCancel i id)
  | some (.mark id) => some (s.mark i id)
  | some .next => some ([], s.goto i (.attempt s.notify.generation))
  | some (.attempt g) => some (s.attempt i g)
  | some (.poll g) => some ([], s.poll i g)
  | some (.parked true) => some ([], s.goto i .next)
  | some .shutdown => some ([], s.storeFlag i)
  | some .notifyWaiters => some ([], s.notifyWaiters i)
  | some (.parked false) | some (.submitted _) | some (.cancelled _) | some (.returned _)
  | some .stopped | none => none

/-- One step: a call begins, or one that is under way goes on. -/
def step (s : Sys P) : Label P → Option (List (Event P) × Sys P)
  | .submit req => some ([], s.arrive (.submit req))
  | .cancel id => some ([], s.arrive (.cancel id))
  | .next => some ([], s.arrive .next)
  | .shutdown => some ([], s.arrive .shutdown)
  | .advance i => s.advance i

/-- Some `next` has returned `None`. -/
def Ended (s : Sys P) : Prop := Phase.returned none ∈ s.calls

end Sys

/-- The scheduler under any number of concurrent calls. -/
def machine (P : Type) (capacity : Nat) : Machine (Sys P) (Label P) (Event P) where
  init := ⟨.new P capacity, .new Nat, []⟩
  step := Sys.step

/-! ## What a step can do -/

/-- The phase in which a call arrives. -/
def Label.entry : Label P → Option (Phase P)
  | .submit req => some (.submit req)
  | .cancel id => some (.cancel id)
  | .next => some .next
  | .shutdown => some .shutdown
  | .advance _ => none

/-- The steps that change nothing but the phase of their call. -/
inductive Moves (s : Sys P) : Phase P → Phase P → Prop where
  | refused {req} (hdown : s.scheduler.shuttingDown = true) :
      Moves s (.submit req) (.submitted (.error .shuttingDown))
  | admitted {req} (hrunning : s.scheduler.shuttingDown = false) : Moves s (.submit req) (.push req)
  | full {req} (hfull : s.scheduler.capacity ≤ s.scheduler.buckets.len) :
      Moves s (.push req) (.submitted (.error (.queueFull s.scheduler.capacity)))
  | cancelRefused {id} (hdown : s.scheduler.shuttingDown = true) :
      Moves s (.cancel id) (.cancelled (.error .shuttingDown))
  | cancelAdmitted {id} (hrunning : s.scheduler.shuttingDown = false) : Moves s (.cancel id) (.mark id)
  | unknown {id} (hunknown : id ∉ s.scheduler.buckets.known) :
      Moves s (.mark id) (.cancelled (.error (.notFound id)))
  | create : Moves s .next (.attempt s.notify.generation)
  | stale {g} (hpermit : s.notify.permit = false) (hg : g ≠ s.notify.generation) :
      Moves s (.poll g) .next
  | wake : Moves s (.parked true) .next

/-- The steps, one rule for each outcome. -/
inductive Rule (s : Sys P) : Label P → List (Event P) → Sys P → Prop where
  | arrive {label phase} (hentry : label.entry = some phase) : Rule s label [] (s.arrive phase)
  | move {i phase phase'} (hphase : s.calls[i]? = some phase) (hmoves : Moves s phase phase') :
      Rule s (.advance i) [] (s.goto i phase')
  | accept {i req} (hphase : s.calls[i]? = some (.push req))
      (hroom : ¬ s.scheduler.capacity ≤ s.scheduler.buckets.len) :
      Rule s (.advance i) [.accepted req]
        ((s.setBuckets (s.scheduler.buckets.push req)).goto i (.notify req))
  | mark {i id} (hphase : s.calls[i]? = some (.mark id)) (hknown : id ∈ s.scheduler.buckets.known) :
      Rule s (.advance i) [.cancelled id]
        ((s.setBuckets (s.scheduler.buckets.mark id hknown)).goto i (.cancelled (.ok ())))
  | take {i g item b} (hphase : s.calls[i]? = some (.attempt g))
      (hpop : s.scheduler.buckets.popNext = (some item, b)) :
      Rule s (.advance i) [.delivered item] ((s.setBuckets b).goto i (.returned (some item)))
  | drained {i g b} (hphase : s.calls[i]? = some (.attempt g))
      (hpop : s.scheduler.buckets.popNext = (none, b)) (hdown : s.scheduler.shuttingDown = true) :
      Rule s (.advance i) [] ((s.setBuckets b).goto i (.returned none))
  | nothing {i g b} (hphase : s.calls[i]? = some (.attempt g))
      (hpop : s.scheduler.buckets.popNext = (none, b))
      (hrunning : s.scheduler.shuttingDown = false) :
      Rule s (.advance i) [] ((s.setBuckets b).goto i (.poll g))
  | permit {i g} (hphase : s.calls[i]? = some (.poll g)) (hpermit : s.notify.permit = true) :
      Rule s (.advance i) [] ({ s with notify := { s.notify with permit := false } }.goto i .next)
  | park {i} (hphase : s.calls[i]? = some (.poll s.notify.generation))
      (hpermit : s.notify.permit = false) :
      Rule s (.advance i) []
        ({ s with notify := { s.notify with waiters := s.notify.waiters ++ [i] } }.goto i
          (.parked false))
  | handOver {i req j waiters} (hphase : s.calls[i]? = some (.notify req))
      (hwaiters : s.notify.waiters = j :: waiters) :
      Rule s (.advance i) []
        (({ s with notify := { s.notify with waiters := waiters } }.goto j (.parked true)).goto i
          (.submitted (.ok ())))
  | storePermit {i req} (hphase : s.calls[i]? = some (.notify req))
      (hwaiters : s.notify.waiters = []) :
      Rule s (.advance i) []
        ({ s with notify := { s.notify with permit := true } }.goto i (.submitted (.ok ())))
  | storeFlag {i} (hphase : s.calls[i]? = some .shutdown) : Rule s (.advance i) [] (s.storeFlag i)
  | notifyWaiters {i} (hphase : s.calls[i]? = some .notifyWaiters) :
      Rule s (.advance i) [] (s.notifyWaiters i)

section Outcomes

variable {s : Sys P} {i : Nat}

theorem loadSubmit_rule {req : ScheduledRequest P} (hphase : s.calls[i]? = some (.submit req)) :
    Rule s (.advance i) [] (s.loadSubmit i req) := by
  unfold Sys.loadSubmit
  cases hflag : s.scheduler.shuttingDown with
  | true => exact .move hphase (.refused hflag)
  | false => exact .move hphase (.admitted hflag)

theorem push_rule {req : ScheduledRequest P} (hphase : s.calls[i]? = some (.push req)) :
    Rule s (.advance i) (s.push i req).1 (s.push i req).2 := by
  unfold Sys.push
  split
  · exact .move hphase (.full ‹_›)
  · exact .accept hphase ‹_›

theorem notifyOne_rule {req : ScheduledRequest P} (hphase : s.calls[i]? = some (.notify req)) :
    Rule s (.advance i) [] (s.notifyOne i) := by
  unfold Sys.notifyOne Notify.notifyOne
  cases hwaiters : s.notify.waiters with
  | nil => simpa [hwaiters] using Rule.storePermit hphase hwaiters
  | cons j waiters => exact .handOver hphase hwaiters

theorem loadCancel_rule {id : RequestId} (hphase : s.calls[i]? = some (.cancel id)) :
    Rule s (.advance i) [] (s.loadCancel i id) := by
  unfold Sys.loadCancel
  cases hflag : s.scheduler.shuttingDown with
  | true => exact .move hphase (.cancelRefused hflag)
  | false => exact .move hphase (.cancelAdmitted hflag)

theorem mark_rule {id : RequestId} (hphase : s.calls[i]? = some (.mark id)) :
    Rule s (.advance i) (s.mark i id).1 (s.mark i id).2 := by
  unfold Sys.mark
  split
  · exact .mark hphase ‹_›
  · exact .move hphase (.unknown ‹_›)

theorem attempt_rule {g : Nat} (hphase : s.calls[i]? = some (.attempt g)) :
    Rule s (.advance i) (s.attempt i g).1 (s.attempt i g).2 := by
  unfold Sys.attempt
  rcases hpop : s.scheduler.buckets.popNext with ⟨_ | item, b⟩
  · cases hflag : s.scheduler.shuttingDown with
    | true => exact .drained hphase hpop hflag
    | false => exact .nothing hphase hpop hflag
  · exact .take hphase hpop

theorem poll_rule {g : Nat} (hphase : s.calls[i]? = some (.poll g)) :
    Rule s (.advance i) [] (s.poll i g) := by
  unfold Sys.poll Notify.poll
  cases hpermit : s.notify.permit with
  | true => exact .permit hphase hpermit
  | false =>
      by_cases hg : g = s.notify.generation
      · subst hg
        simpa [hpermit] using Rule.park hphase hpermit
      · simpa [hg] using Rule.move hphase (.stale hpermit hg)

end Outcomes

/-- Every step is the outcome of one rule. -/
theorem step_rule {s t : Sys P} {label : Label P} {es : List (Event P)}
    (hstep : s.step label = some (es, t)) : Rule s label es t := by
  cases label with
  | submit req => cases hstep; exact .arrive rfl
  | cancel id => cases hstep; exact .arrive rfl
  | next => cases hstep; exact .arrive rfl
  | shutdown => cases hstep; exact .arrive rfl
  | advance i =>
      simp only [Sys.step, Sys.advance] at hstep
      split at hstep <;> rename_i hphase
      · cases hstep; exact loadSubmit_rule hphase
      · simpa [Option.some.inj hstep] using push_rule hphase
      · cases hstep; exact notifyOne_rule hphase
      · cases hstep; exact loadCancel_rule hphase
      · simpa [Option.some.inj hstep] using mark_rule hphase
      · cases hstep; exact .move hphase .create
      · simpa [Option.some.inj hstep] using attempt_rule hphase
      · cases hstep; exact poll_rule hphase
      · cases hstep; exact .move hphase .wake
      · cases hstep; exact .storeFlag hphase
      · cases hstep; exact .notifyWaiters hphase
      all_goals cases hstep

end Repercep.Scheduling.Interleaved
