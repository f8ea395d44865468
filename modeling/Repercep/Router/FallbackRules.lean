import Repercep.Router.Fallback
set_option autoImplicit false

/-!
# Router: what a call does on the fallback

A call of `_PythonRouter` stores no more than one entry.  From this: a request that has
ended stays so, only a push moves its last index, and a request that becomes known has no
frame yet.
-/

namespace Repercep.Router.PythonRouter

open Repercep.Foundation

variable {r t : PythonRouter} {id : RequestId}

/-- The request is in a terminal state. -/
def Terminal (r : PythonRouter) (id : RequestId) : Prop :=
  ∃ e, r.requests id = some e ∧ e.state.isTerminal = true

/-- The request is known, and this is the index of its last frame. -/
def Recorded (r : PythonRouter) (id : RequestId) (last : Option Int) : Prop :=
  ∃ e, r.requests id = some e ∧ e.lastFrameIndex = last

/-- A push is refused, and nothing changes, or it queues its frame. -/
theorem pushFrame_cases (r : PythonRouter) (frame : FrameDict) :
    ((∃ err, (r.pushFrame frame).1 = .error err) ∧ (r.pushFrame frame).2 = r) ∨
      ∃ e, ∃ hroom : ¬ e.queue.Full, r.requests frame.requestId = some e ∧
        e.state.isTerminal = false ∧ e.staleAgainst frame.frameIndex = none ∧
        r.pushFrame frame = (.ok (), r.setEntry frame.requestId (e.push frame hroom)) := by
  unfold pushFrame
  split
  · exact Or.inl ⟨⟨_, rfl⟩, rfl⟩
  · next e hentry =>
      split
      · exact Or.inl ⟨⟨_, rfl⟩, rfl⟩
      · next hlive =>
          split
          · exact Or.inl ⟨⟨_, rfl⟩, rfl⟩
          · next hstale =>
              split
              · exact Or.inl ⟨⟨_, rfl⟩, rfl⟩
              · next hroom => exact Or.inr ⟨e, hroom, hentry, by simpa using hlive, hstale, rfl⟩

/-- After a `cancel` of a known request it has ended. -/
theorem cancel_terminal (hknown : ∃ e, r.requests id = some e) : (r.cancel id).2.Terminal id := by
  obtain ⟨e, hentry⟩ := hknown
  unfold cancel
  rw [hentry]
  cases hend : e.state.isTerminal with
  | true => exact ⟨e, by simpa [hend] using hentry, hend⟩
  | false => exact ⟨e.close .cancelled, by simp [hend], rfl⟩

/-- What an entry keeps while `pushed` says whether a frame is queued in it. -/
def EntryKeeps (e e' : PythonEntry) (pushed : Prop) : Prop :=
  (e.state.isTerminal = true → e'.state.isTerminal = true) ∧
    (¬ pushed → e'.lastFrameIndex = e.lastFrameIndex)

/-- A call changes nothing, or it stores the next entry of a request or a new one. -/
inductive Stores (r : PythonRouter) (a : PythonCall) : PythonRouter → Prop
  | same : Stores r a r
  | entry {k : RequestId} {e e' : PythonEntry} (hentry : r.requests k = some e)
      (hkeeps : EntryKeeps e e' (∃ frame, a = .pushFrame frame ∧ frame.requestId = k)) :
      Stores r a (r.setEntry k e')
  | fresh {k : RequestId} {e' : PythonEntry} (hfree : r.requests k = none)
      (hnone : e'.lastFrameIndex = none) : Stores r a (r.setEntry k e')

theorem next_keeps (e : PythonEntry) (pushed : Prop) : EntryKeeps e e.next.2 pushed := by
  unfold PythonEntry.next
  split
  · exact ⟨fun h => h, fun _ => rfl⟩
  · exact ⟨fun h => h, fun _ => rfl⟩
  · split <;> exact ⟨fun h => h, fun _ => rfl⟩

theorem step_stores {a : PythonCall} {es : List PythonEvent} (h : r.step a = some (es, t))
    (hshut : a ≠ .shutdown) : Stores r a t := by
  cases a with
  | accept k priority submit =>
      cases h
      unfold accept
      split
      · exact .same
      · split
        · exact .same
        · split
          · exact .same
          · next hfree =>
              split
              · exact .same
              · exact .fresh hfree rfl
  | subscribe k =>
      cases h
      unfold subscribe
      split
      · exact .same
      · next e hentry =>
          split
          · exact .same
          · exact .entry hentry ⟨fun h => h, fun _ => rfl⟩
  | pushFrame frame =>
      cases h
      rcases r.pushFrame_cases frame with ⟨-, hsame⟩ | ⟨e, hroom, hentry, hlive, -, hpush⟩
      · rw [hsame]
        exact .same
      · rw [hpush]
        refine .entry hentry ⟨fun hend => ?_, fun hnot => absurd ⟨frame, rfl, rfl⟩ hnot⟩
        rw [hlive] at hend
        cases hend
  | cancel k =>
      cases h
      unfold cancel
      split
      · exact .same
      · next e hentry =>
          split
          · exact .same
          · exact .entry hentry ⟨fun _ => rfl, fun _ => rfl⟩
  | state k =>
      cases h
      exact .same
  | read k =>
      simp only [step] at h
      split at h
      · cases h
      · next result r' hread =>
          cases h
          unfold read at hread
          split at hread
          · next e hentry =>
              split at hread
              · cases hread
                exact .entry hentry (next_keeps e _)
              · cases hread
          · cases hread
  | shutdown => exact absurd rfl hshut

/-- A request that has ended stays so. -/
theorem Terminal.step {a : PythonCall} {es : List PythonEvent} (hterminal : r.Terminal id)
    (h : r.step a = some (es, t)) : t.Terminal id := by
  obtain ⟨e, hentry, hend⟩ := hterminal
  by_cases hshut : a = .shutdown
  · subst hshut
    cases h
    exact ⟨e.close e.state, by simp [shutdown, hentry], hend⟩
  · cases step_stores h hshut with
    | same => exact ⟨e, hentry, hend⟩
    | @entry k e₀ e' hentry' hkeeps =>
        by_cases hk : id = k
        · subst hk
          cases hentry.symm.trans hentry'
          exact ⟨e', by simp, hkeeps.1 hend⟩
        · exact ⟨e, by simpa [hk] using hentry, hend⟩
    | @fresh k e' hfree hnone =>
        have hk : id ≠ k := by
          rintro rfl
          cases hentry.symm.trans hfree
        exact ⟨e, by simpa [hk] using hentry, hend⟩

/-- The last index stays but for a push. -/
theorem Recorded.step {a : PythonCall} {es : List PythonEvent} {last : Option Int}
    (hrecorded : r.Recorded id last) (h : r.step a = some (es, t))
    (hnot : ¬ ∃ frame, a = .pushFrame frame ∧ frame.requestId = id) : t.Recorded id last := by
  obtain ⟨e, hentry, rfl⟩ := hrecorded
  by_cases hshut : a = .shutdown
  · subst hshut
    cases h
    exact ⟨e.close e.state, by simp [shutdown, hentry], rfl⟩
  · cases step_stores h hshut with
    | same => exact ⟨e, hentry, rfl⟩
    | @entry k e₀ e' hentry' hkeeps =>
        by_cases hk : id = k
        · subst hk
          cases hentry.symm.trans hentry'
          exact ⟨e', by simp, hkeeps.2 hnot⟩
        · exact ⟨e, by simpa [hk] using hentry, rfl⟩
    | @fresh k e' hfree hnone =>
        have hk : id ≠ k := by
          rintro rfl
          cases hentry.symm.trans hfree
        exact ⟨e, by simpa [hk] using hentry, rfl⟩

/-- A request that becomes known has no frame yet. -/
theorem step_unknown {a : PythonCall} {es : List PythonEvent} (h : r.step a = some (es, t))
    (hfree : r.requests id = none) : t.requests id = none ∨ t.Recorded id none := by
  by_cases hshut : a = .shutdown
  · subst hshut
    cases h
    exact Or.inl (by simp [shutdown, hfree])
  · cases step_stores h hshut with
    | same => exact Or.inl hfree
    | @entry k e₀ e' hentry' hkeeps =>
        have hk : id ≠ k := by
          rintro rfl
          cases hfree.symm.trans hentry'
        exact Or.inl (by simpa [hk] using hfree)
    | @fresh k e' hfree' hnone =>
        by_cases hk : id = k
        · subst hk
          exact Or.inr ⟨e', by simp, hnone⟩
        · exact Or.inl (by simpa [hk] using hfree)

end Repercep.Router.PythonRouter
