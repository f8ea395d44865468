import Repercep.Driver.Model
import Repercep.Router.Request
set_option autoImplicit false

/-!
# The engine driver: one push at a time

Nobody but the driver pushes frames of its request, and the driver schedules a push
only when the one before has returned to it.  A push that it stopped waiting for may
still be running, but then the driver pushes no more.
-/

namespace Repercep.Driver

open Repercep.Foundation
open Repercep.Router

/-- The program counters at which no push has been scheduled and not collected. -/
def Pc.betweenPushes : Pc → Bool
  | waiting | pulling _ _ | checkingStop _ _ | checkingState _ _ => true
  | _ => false

/-- Whichever push of the request is in flight is the one in the slot. -/
def Lone (id : RequestId) (router : Sys) (push : PushFuture) : Prop :=
  ∀ c frame, router.Pushing c frame → frame.requestId = id → push = .running c

/-- What holds of the request in every run: it is not withdrawn, and its pushes come
one at a time. -/
structure Solo (id : RequestId) (s : State) : Prop where
  kept : s.router.Kept id
  lone : Lone id s.router s.push
  idle : s.pc.betweenPushes = true → s.push = .idle

section Lone

variable {id : RequestId} {router r : Sys} {push push' : PushFuture} {a : Router.Action}
  {es : List Event}

/-- With no push running, none of the request's pushes is in flight. -/
theorem Lone.quiet (hlone : Lone id router push) (hpush : ∀ c, push ≠ .running c)
    {c : CallId} {frame : Frame} (hc : router.Pushing c frame) : frame.requestId ≠ id :=
  fun hid => hpush c (hlone c frame hc hid)

/-- Scheduling a push when none is left over. -/
theorem Lone.schedule (hlone : Lone id router push) (hidle : push = .idle) :
    Lone id router push' := by
  intro c frame hc hid
  exact absurd hid (hlone.quiet (by simp [hidle]) hc)

/-- Taking the result of a push that has returned. -/
theorem Lone.collect {c : CallId} {result : Except RouterError Unit}
    (hlone : Lone id router (.running c)) (hcall : router.calls c = some (.done result)) :
    Lone id router .idle := by
  rintro d frame hd hid
  have hsame : PushFuture.running c = .running d := hlone d frame hd hid
  cases hsame
  obtain ⟨call, hcall', hframe⟩ := hd
  cases hcall.symm.trans hcall'
  cases hframe

/-- A router step that invokes no push of the request. -/
theorem Lone.router_step (hlone : Lone id router push) (h : router.Rule a es r)
    (hforeign : ∀ c frame, a = .invoke c (.pushFrame frame) → frame.requestId ≠ id) :
    Lone id r push := by
  intro c frame hc hid
  rcases h.pushing hc with hc | ha
  · exact hlone c frame hc hid
  · exact absurd hid (hforeign c frame ha)

end Lone

/-- With a push in the slot the driver is not between pushes. -/
theorem Solo.not_between {id : RequestId} {s : State} (hs : Solo id s) (hpush : s.push ≠ .idle) :
    s.pc.betweenPushes = false := by
  rw [Bool.eq_false_iff]
  exact fun hbetween => hpush (hs.idle hbetween)

theorem Solo.init (depth : Nat) (id : RequestId) (job : Job) :
    Solo id (machine depth id job).init where
  kept := by
    intro c req e hcall
    cases hcall
  lone := by
    rintro c frame ⟨call, hcall, -⟩
    cases hcall
  idle := fun _ => rfl

/-- The pushes come one at a time, whatever the other callers do. -/
theorem Solo.step {job : Job} {id : RequestId} {s t : State} {a : Action} {es : List Event}
    (hs : Solo id s) (h : s.Rule job id a es t) : Solo id t := by
  have hidle : ∀ {pc : Pc}, s.pc = pc → pc.betweenPushes = true → s.push = .idle := by
    rintro pc rfl hbetween
    exact hs.idle hbetween
  cases h with
  | pop hpc _ _ => exact ⟨hs.kept, hs.lone, fun _ => hidle hpc rfl⟩
  | pull hpc => exact ⟨hs.kept, hs.lone, fun _ => hidle hpc rfl⟩
  | notStopped hpc _ => exact ⟨hs.kept, hs.lone, fun _ => hidle hpc rfl⟩
  | pushMarker hpc _ _ _ =>
      exact ⟨hs.kept, hs.lone.schedule (hidle hpc rfl), fun hbetween => by cases hbetween⟩
  | pushFrame hpc _ _ =>
      exact ⟨hs.kept, hs.lone.schedule (hidle hpc rfl), fun hbetween => by cases hbetween⟩
  | pushed _ hpush hcall =>
      have hlone := hs.lone
      rw [hpush] at hlone
      exact ⟨hs.kept, hlone.collect hcall, fun _ => rfl⟩
  | @launch c index i payload isFinal hpush _ hfree =>
      have hstep : s.router.Rule (.invoke c (.pushFrame ⟨id, i, payload, isFinal⟩)) []
          (s.router.advance c (.called (.pushFrame ⟨id, i, payload, isFinal⟩)) s.router.inner) :=
        .invoke hfree
      refine ⟨hs.kept.step hstep (by simp), ?_, ?_⟩
      · intro d frame hd hid
        rcases hstep.pushing hd with hd | ha
        · exact absurd hid (hs.lone.quiet (by simp [hpush]) hd)
        · cases ha
          rfl
      · intro hbetween
        cases (hs.idle hbetween).symm.trans hpush
  | launchFailed hpush _ =>
      refine ⟨hs.kept, ?_, ?_⟩
      · intro d frame hd hid
        exact absurd hid (hs.lone.quiet (by simp [hpush]) hd)
      · intro hbetween
        cases (hs.idle hbetween).symm.trans hpush
  | @cancel c _ hfree =>
      have hstep : s.router.Rule (.invoke c (.cancel id)) []
          (s.router.advance c (.called (.cancel id)) s.router.inner) := .invoke hfree
      exact ⟨hs.kept.step hstep (by simp), hs.lone.router_step hstep (by simp),
        fun hbetween => by cases hbetween⟩
  | setStop => exact ⟨hs.kept, hs.lone, hs.idle⟩
  | @env b es r hout hrule =>
      refine ⟨hs.kept.step hrule ?_, hs.lone.router_step hrule ?_, hs.idle⟩
      · rintro c req e rfl hcall
        simpa [outside, hcall] using hout
      · rintro c frame rfl
        simpa [outside] using hout
  | _ => exact ⟨hs.kept, hs.lone, fun hbetween => by cases hbetween⟩

end Repercep.Driver
