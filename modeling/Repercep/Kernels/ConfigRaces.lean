import Repercep.Kernels.ConfigCache
set_option autoImplicit false

/-!
# Recordings that run into each other

Of calls that rename while no other has the cache in hand, no entry is lost: the cache file is
absent or a complete object in every state, and the entry of every call that has returned is
in it.  Where two overlap, one writes the dict it loaded before the other renamed, or writes
into the file that the other renames.
-/

namespace Repercep.Kernels.ConfigCache

open Repercep.Foundation

section Invariant

variable {n : Nat} {recordings : Fin n → Recording}

/-- The key of a call that has returned. -/
def Returned (recordings : Fin n → Recording) (s : State n) (k : Units) : Prop :=
  ∃ p, s.phase p = .returned ∧ cacheKey (recordings p) = k

/-- No other call uses the temporary file. -/
def Alone (s : State n) (p : Fin n) : Prop := ∀ q, q ≠ p → ¬ (s.phase q).usesTmp

/-- A cache file with the entries of the keys in `R`. -/
structure Keeps (R : Units → Prop) (text : List Char) : Prop where
  object : IsObject text
  entries : ∀ k, R k → k ∈ keysOf text

/-- A dict with the entry of `k` and those of the keys in `R`. -/
structure Covers (R : Units → Prop) (k : Units) (cache : Entries) : Prop where
  own : k ∈ cache.map Prod.fst
  entries : ∀ j, R j → j ∈ cache.map Prod.fst

/-- What holds of a call that records under `k`, where `R` are the keys of the calls that have
returned and `alone` says that no other call uses the temporary file. -/
def Phase.Good (f : Directory) (R : Units → Prop) (k : Units) (alone : Prop) : Phase → Prop
  | .called => True
  | .found => True
  | .reading i pos text => i < f.next ∧ f.entry .tmp ≠ some i ∧
      (∀ j, R j → j = k ∨ j ∈ keysOf (f.content i)) ∧ text = (f.content i).take pos
  | .loaded cache => Covers R k cache
  | .writing i pos rest => f.entry .tmp = some i ∧ (alone → pos = (f.content i).length ∧
      ∃ cache, Covers R k cache ∧ f.content i ++ rest = dumped cache)
  | .closed => ∃ i, f.entry .tmp = some i ∧
      (alone → ∃ cache, Covers R k cache ∧ f.content i = dumped cache)
  | .returned => True
  | .raised => False

/-- What holds of the directory. -/
structure GoodFiles (f : Directory) (R : Units → Prop) : Prop where
  cache : ∀ i, f.entry .cache = some i → Keeps R (f.content i)
  absent : f.entry .cache = none → ∀ k, ¬ R k
  apart : ∀ i, f.entry .cache = some i → f.entry .tmp ≠ some i

/-- The invariant of the calls. -/
structure Good (recordings : Fin n → Recording) (s : State n) : Prop where
  files : GoodFiles s.files (Returned recordings s)
  calls : ∀ p, (s.phase p).Good s.files (Returned recordings s) (cacheKey (recordings p))
    (Alone s p)

/-! ## What a step does -/

/-- The steps of a call. -/
inductive Moved (r : Recording) (f : Directory) :
    Phase → Action → Directory → Phase → Prop where
  | isAbsent (habsent : f.entry .cache = none) :
      Moved r f .called .exists f (.loaded (r.enter []))
  | isFound {i : Nat} (hentry : f.entry .cache = some i) : Moved r f .called .exists f .found
  | openFails (habsent : f.entry .cache = none) :
      Moved r f .found .openRead f (.loaded (r.enter []))
  | opens {i : Nat} (hentry : f.entry .cache = some i) :
      Moved r f .found .openRead f (.reading i 0 [])
  | reads {i pos : Nat} {text : List Char} (count : Nat) :
      Moved r f (.reading i pos text) (.read count) f
        (.reading i (pos + (f.chunk i pos (count + 1)).length)
          (text ++ f.chunk i pos (count + 1)))
  | loads {i pos : Nat} {text : List Char} {count : Nat}
      (hend : f.chunk i pos (count + 1) = []) :
      Moved r f (.reading i pos text) (.read count) f (.loaded (r.enter (cacheLoad text)))
  | empties {cache : Entries} :
      Moved r f (.loaded cache) .openWrite (f.openWrite .tmp)
        (.writing (f.target .tmp) 0 (dumped cache))
  | writes {i pos : Nat} {new rest : List Char} {count : Nat} :
      Moved r f (.writing i pos (new ++ rest)) (.write count) (f.writeAt '\x00' i pos new)
        (.writing i (pos + new.length) rest)
  | closes {i pos : Nat} : Moved r f (.writing i pos []) .close f .closed
  | replaceFails (hrename : f.rename .tmp .cache = none) :
      Moved r f .closed .replace f .raised
  | replaces {g : Directory} (hrename : f.rename .tmp .cache = some g) :
      Moved r f .closed .replace g .returned

theorem moved_of_advance {r : Recording} {f g : Directory} {ph ph' : Phase} {a : Action}
    (h : advance r f ph a = some (g, ph')) : Moved r f ph a g ph' := by
  unfold advance at h
  split at h
  · split at h <;> cases h
    · exact .isAbsent ‹_›
    · exact .isFound ‹_›
  · split at h <;> cases h
    · exact .openFails ‹_›
    · exact .opens ‹_›
  · split at h <;> cases h
    · exact .loads ‹_›
    · exact .reads _
  · cases h
    exact .empties
  · next i pos c rest count =>
      cases h
      have hsplit : c :: rest = (c :: rest.take count) ++ rest.drop count := by
        rw [List.cons_append, List.take_append_drop]
      rw [hsplit]
      exact .writes
  · cases h
    exact .closes
  · split at h <;> cases h
    · exact .replaceFails ‹_›
    · exact .replaces ‹_›
  · cases h

/-! ## Files -/

section Directories

variable {f g : Directory} {R R' : Units → Prop} {k j : Units} {alone alone' : Prop} {ph : Phase}

theorem Covers.enter (r : Recording) {cache : Entries}
    (h : ∀ j, R j → j = cacheKey r ∨ j ∈ cache.map Prod.fst) :
    Covers R (cacheKey r) (r.enter cache) where
  own := mem_map_fst_enter.mpr (.inl rfl)
  entries := fun j hj => mem_map_fst_enter.mpr (h j hj)

/-- What is dumped of a dict with all the entries is a cache file with all of them. -/
theorem Covers.keeps {cache : Entries} (h : Covers R k cache)
    (hreturned : ∀ j, R' j → R j ∨ j = k) : Keeps R' (dumped cache) where
  object := isObject_dumped cache
  entries := by
    intro j hj
    rw [mem_keysOf_dumped]
    cases hreturned j hj with
    | inl hold => exact h.entries j hold
    | inr hown => exact hown ▸ h.own

/-- Other calls keep what they have when one opens the temporary file, but those that are
writing it. -/
theorem Phase.Good.openWrite (h : ph.Good f R k alone) (halone : ph.usesTmp → ¬ alone') :
    ph.Good (f.openWrite .tmp) R k alone' := by
  cases ph with
  | reading i pos text =>
      obtain ⟨hlt, htmp, hkeeps, htext⟩ := h
      have hne := Files.ne_target hlt htmp
      refine ⟨Nat.lt_of_lt_of_le hlt Files.next_le_openWrite, ?_, ?_, ?_⟩
      · rw [Files.openWrite_entry_self]
        exact fun heq => hne (Option.some.inj heq).symm
      · rwa [Files.openWrite_content_of_ne hne]
      · rwa [Files.openWrite_content_of_ne hne]
  | writing i pos rest =>
      refine ⟨?_, fun hyes => absurd hyes (halone trivial)⟩
      rw [Files.openWrite_entry_self, Files.target_eq h.1]
  | closed =>
      obtain ⟨i, hentry, -⟩ := h
      refine ⟨i, ?_, fun hyes => absurd hyes (halone trivial)⟩
      rw [Files.openWrite_entry_self, Files.target_eq hentry]
  | _ => exact h

/-- Other calls keep what they have when one writes the temporary file, but those that are
writing it, too. -/
theorem Phase.Good.writeAt {i pos : Nat} {new : List Char} (h : ph.Good f R k alone)
    (htmp : f.entry .tmp = some i) (halone : ph.usesTmp → ¬ alone') :
    ph.Good (f.writeAt '\x00' i pos new) R k alone' := by
  cases ph with
  | reading j pos text =>
      obtain ⟨hlt, hother, hkeeps, htext⟩ := h
      have hne : j ≠ i := fun heq => hother (heq ▸ htmp)
      refine ⟨hlt, hother, ?_, ?_⟩
      · rwa [Files.writeAt_content_of_ne hne]
      · rwa [Files.writeAt_content_of_ne hne]
  | writing j pos rest => exact ⟨h.1, fun hyes => absurd hyes (halone trivial)⟩
  | closed =>
      obtain ⟨j, hentry, -⟩ := h
      exact ⟨j, hentry, fun hyes => absurd hyes (halone trivial)⟩
  | _ => exact h

/-- Other calls keep what they have when one renames the temporary file that they neither use
nor lack an entry of. -/
theorem Phase.Good.rename (h : ph.Good f R k alone) (huses : ¬ ph.usesTmp)
    (hknows : ph.Knows f k j) (hcontent : g.content = f.content) (hnext : g.next = f.next)
    (htmp : g.entry .tmp = none) (hreturned : ∀ j', R' j' → R j' ∨ j' = j) :
    ph.Good g R' k alone' := by
  cases ph with
  | reading i pos text =>
      obtain ⟨hlt, -, hkeeps, htext⟩ := h
      refine ⟨hnext ▸ hlt, by simp [htmp], fun j' hj' => ?_, by rw [hcontent, htext]⟩
      rw [hcontent]
      cases hreturned j' hj' with
      | inl hold => exact hkeeps j' hold
      | inr hnew => exact hnew ▸ hknows
  | loaded cache =>
      refine ⟨h.own, fun j' hj' => ?_⟩
      cases hreturned j' hj' with
      | inl hold => exact h.entries j' hold
      | inr hnew => exact hnew ▸ hknows
  | writing i pos rest => exact absurd trivial huses
  | closed => exact absurd trivial huses
  | raised => exact h
  | _ => trivial

theorem GoodFiles.openWrite (h : GoodFiles f R) : GoodFiles (f.openWrite .tmp) R := by
  have hcache : (f.openWrite .tmp).entry .cache = f.entry .cache :=
    Files.openWrite_entry_of_ne (by decide)
  have hne : ∀ i, f.entry .cache = some i → i ≠ f.target .tmp := fun i hi =>
    Files.ne_target (f.named .cache i hi) (h.apart i hi)
  refine ⟨fun i hi => ?_, fun hnone => ?_, fun i hi heq => ?_⟩
  · rw [hcache] at hi
    rw [Files.openWrite_content_of_ne (hne i hi)]
    exact h.cache i hi
  · exact h.absent (hcache.symm.trans hnone)
  · rw [hcache] at hi
    rw [Files.openWrite_entry_self] at heq
    exact hne i hi (Option.some.inj heq).symm

theorem GoodFiles.writeAt {i pos : Nat} {new : List Char} (h : GoodFiles f R)
    (htmp : f.entry .tmp = some i) : GoodFiles (f.writeAt '\x00' i pos new) R := by
  refine ⟨fun j hj => ?_, h.absent, h.apart⟩
  have hne : j ≠ i := fun heq => h.apart j hj (heq ▸ htmp)
  rw [Files.writeAt_content_of_ne hne]
  exact h.cache j hj

end Directories

/-! ## A step of the system -/

section Step

variable {s : State n} {p q : Fin n} {g : Directory} {ph : Phase}

theorem alone_moved_self : Alone (s.moved p g ph) p ↔ Alone s p := by
  refine forall_congr' fun q => imp_congr_right fun hq => ?_
  rw [State.moved_phase_of_ne hq]

/-- Who else uses the temporary file does not change for the others either where the step
neither begins nor ends its use. -/
theorem alone_moved_of_iff (huses : ph.usesTmp ↔ (s.phase p).usesTmp) (hq : q ≠ p) :
    Alone (s.moved p g ph) q ↔ Alone s q := by
  have hphase : ∀ q', ((s.moved p g ph).phase q').usesTmp ↔ (s.phase q').usesTmp := by
    intro q'
    rcases eq_or_ne q' p with rfl | hne
    · rw [State.moved_phase_self, huses]
    · rw [State.moved_phase_of_ne hne]
  exact forall_congr' fun q' => imp_congr_right fun _ => not_congr (hphase q')

theorem not_alone_moved (huses : ph.usesTmp) (hq : q ≠ p) : ¬ Alone (s.moved p g ph) q := by
  intro h
  refine h p hq.symm ?_
  rw [State.moved_phase_self]
  exact huses

theorem returned_moved (hbefore : s.phase p ≠ .returned) (hafter : ph ≠ .returned) :
    Returned recordings (s.moved p g ph) = Returned recordings s := by
  funext k
  refine propext (exists_congr fun q => and_congr_left fun _ => ?_)
  rcases eq_or_ne q p with rfl | hne
  · rw [State.moved_phase_self]
    exact iff_of_false hafter hbefore
  · rw [State.moved_phase_of_ne hne]

theorem returned_of_moved {k : Units} (h : Returned recordings (s.moved p g ph) k) :
    Returned recordings s k ∨ k = cacheKey (recordings p) := by
  obtain ⟨q, hq, rfl⟩ := h
  rcases eq_or_ne q p with rfl | hne
  · exact .inr rfl
  · rw [State.moved_phase_of_ne hne] at hq
    exact .inl ⟨q, hq, rfl⟩

/-- A step that is good for its call and for the others is good. -/
theorem good_moved
    (hfiles : GoodFiles g (Returned recordings (s.moved p g ph)))
    (hown : ph.Good g (Returned recordings (s.moved p g ph)) (cacheKey (recordings p))
      (Alone s p))
    (hothers : ∀ q, q ≠ p → (s.phase q).Good g (Returned recordings (s.moved p g ph))
      (cacheKey (recordings q)) (Alone (s.moved p g ph) q)) :
    Good recordings (s.moved p g ph) := by
  refine ⟨hfiles, fun q => ?_⟩
  rcases eq_or_ne q p with rfl | hne
  · rw [State.moved_phase_self, propext (@alone_moved_self n s q g ph)]
    exact hown
  · rw [State.moved_phase_of_ne hne]
    exact hothers q hne

/-- A step that leaves the files as they are, and neither begins nor ends the use of the
temporary file. -/
theorem good_moved_local (h : Good recordings s) (hbefore : s.phase p ≠ .returned)
    (hafter : ph ≠ .returned) (huses : ph.usesTmp ↔ (s.phase p).usesTmp)
    (hown : ph.Good s.files (Returned recordings s) (cacheKey (recordings p)) (Alone s p)) :
    Good recordings (s.moved p s.files ph) := by
  have hreturned := @returned_moved n recordings s p s.files ph hbefore hafter
  refine good_moved (by rw [hreturned]; exact h.files) (by rw [hreturned]; exact hown) ?_
  intro q hq
  rw [hreturned, propext (alone_moved_of_iff huses hq)]
  exact h.calls q

/-- The dict of a call that finds no cache file. -/
theorem covers_of_absent (h : Good recordings s) (habsent : s.files.entry .cache = none) :
    Covers (Returned recordings s) (cacheKey (recordings p)) ((recordings p).enter []) :=
  Covers.enter _ fun k hk => absurd hk (h.files.absent habsent k)

/-- The renaming of a complete temporary file. -/
theorem good_replaced (h : Good recordings s) (hclosed : s.phase p = .closed)
    (halone : RenamesAlone recordings s (p, .replace))
    (hrename : s.files.rename .tmp .cache = some g) :
    Good recordings (s.moved p g .returned) := by
  have hcall := h.calls p
  rw [hclosed] at hcall
  obtain ⟨i, htmp, hwritten⟩ := hcall
  obtain ⟨cache, hcovers, hcontent⟩ := hwritten fun q hq => (halone q hq).1
  have hapart : s.files.entry .cache ≠ some i := fun hi => h.files.apart i hi htmp
  obtain ⟨hsame, hnext, hgone, hentry⟩ := Files.rename_eq_some htmp hapart hrename
  have hcache : g.entry .cache = some i := hentry (by decide)
  have hreturned : ∀ k, Returned recordings (s.moved p g .returned) k →
      Returned recordings s k ∨ k = cacheKey (recordings p) := fun _ => returned_of_moved
  refine good_moved ⟨fun j hj => ?_, fun hnone => ?_, fun j _ => by simp [hgone]⟩ trivial ?_
  · cases hcache.symm.trans hj
    rw [hsame, hcontent]
    exact hcovers.keeps hreturned
  · rw [hcache] at hnone
    cases hnone
  · intro q hq
    exact (h.calls q).rename (halone q hq).1 (halone q hq).2 hsame hnext hgone hreturned

/-- Every step keeps the invariant, a renaming where the call is alone. -/
theorem good_step {t : State n} {a : Fin n × Action} {es : List Empty}
    (h : Good recordings s) (halone : RenamesAlone recordings s a)
    (hstep : step recordings s a = some (es, t)) : Good recordings t := by
  obtain ⟨p, act⟩ := a
  obtain ⟨⟨g, ph⟩, hadvance, hresult⟩ := Option.map_eq_some_iff.mp hstep
  cases hresult
  have hmoved := moved_of_advance hadvance
  have hcall := h.calls p
  generalize hphase : s.phase p = old at hmoved hcall
  have hlocal : ∀ ph', old ≠ .returned → ph' ≠ .returned → (ph'.usesTmp ↔ old.usesTmp) →
      ph'.Good s.files (Returned recordings s) (cacheKey (recordings p)) (Alone s p) →
      Good recordings (s.moved p s.files ph') := by
    rintro ph' hbefore hafter huses hown
    rw [← hphase] at hbefore huses
    exact good_moved_local h hbefore hafter huses hown
  cases hmoved with
  | isAbsent habsent =>
      exact hlocal _ (by simp) (by simp) Iff.rfl (covers_of_absent h habsent)
  | isFound hentry => exact hlocal _ (by simp) (by simp) Iff.rfl trivial
  | openFails habsent =>
      exact hlocal _ (by simp) (by simp) Iff.rfl (covers_of_absent h habsent)
  | @opens i hentry =>
      refine hlocal _ (by simp) (by simp) Iff.rfl ⟨s.files.named .cache i hentry,
        h.files.apart i hentry, fun j hj => .inr ((h.files.cache i hentry).entries j hj), ?_⟩
      rw [List.take_zero]
  | @reads i pos text count =>
      obtain ⟨hlt, htmp, hkeeps, htext⟩ := hcall
      refine hlocal _ (by simp) (by simp) Iff.rfl ⟨hlt, htmp, hkeeps, ?_⟩
      rw [htext, Files.take_append_chunk]
  | @loads i pos text count hend =>
      obtain ⟨hlt, htmp, hkeeps, htext⟩ := hcall
      rw [Files.take_of_chunk_eq_nil hend] at htext
      refine hlocal _ (by simp) (by simp) Iff.rfl (Covers.enter _ ?_)
      rw [htext]
      exact hkeeps
  | @empties cache =>
      have hreturned := @returned_moved n recordings s p (s.files.openWrite .tmp)
        (.writing (s.files.target .tmp) 0 (dumped cache)) (by simp [hphase]) (by simp)
      refine good_moved ?_ ?_ fun q hq => ?_
      · rw [hreturned]
        exact h.files.openWrite
      · rw [hreturned]
        refine ⟨Files.openWrite_entry_self, fun _ => ?_⟩
        rw [Files.openWrite_content_target]
        exact ⟨rfl, cache, hcall, rfl⟩
      · rw [hreturned]
        exact (h.calls q).openWrite fun _ => not_alone_moved trivial hq
  | @writes i pos new rest count =>
      obtain ⟨htmp, hwritten⟩ := hcall
      have hreturned := @returned_moved n recordings s p (s.files.writeAt '\x00' i pos new)
        (.writing i (pos + new.length) rest) (by simp [hphase]) (by simp)
      refine good_moved ?_ ?_ fun q hq => ?_
      · rw [hreturned]
        exact h.files.writeAt htmp
      · rw [hreturned]
        refine ⟨htmp, fun halone' => ?_⟩
        obtain ⟨rfl, cache, hcovers, hdumped⟩ := hwritten halone'
        rw [Files.writeAt_content_self, Files.overwrite_length, List.length_append]
        refine ⟨rfl, cache, hcovers, ?_⟩
        rw [List.append_assoc, hdumped]
      · rw [hreturned]
        exact (h.calls q).writeAt htmp fun _ => not_alone_moved trivial hq
  | @closes i pos =>
      obtain ⟨htmp, hwritten⟩ := hcall
      refine hlocal _ (by simp) (by simp) Iff.rfl ⟨i, htmp, fun halone' => ?_⟩
      obtain ⟨-, cache, hcovers, hdumped⟩ := hwritten halone'
      exact ⟨cache, hcovers, by rw [← hdumped, List.append_nil]⟩
  | replaceFails hrename =>
      obtain ⟨i, htmp, -⟩ := hcall
      rw [Files.rename, htmp] at hrename
      cases hrename
  | replaces hrename => exact good_replaced h hphase halone hrename

end Step

/-! ## Runs -/

theorem good_start {cache tmp : Option (List Char)} (hcache : ∀ text ∈ cache, IsObject text) :
    Good recordings (start cache tmp) := by
  have hnone : ∀ k, ¬ Returned recordings (start cache tmp : State n) k := by
    rintro k ⟨p, hp, -⟩
    cases hp
  refine ⟨⟨fun i hi => ?_, fun _ => hnone, fun i hi htmp => ?_⟩, fun _ => trivial⟩
  · obtain ⟨text, htext, rfl⟩ := Option.map_eq_some_iff.mp hi
    refine ⟨?_, fun k hk => absurd hk (hnone k)⟩
    have hcontent : (start cache tmp : State n).files.content 0 = text := by
      simp [start, htext]
    rw [hcontent]
    exact hcache text htext
  · obtain ⟨_, -, rfl⟩ := Option.map_eq_some_iff.mp hi
    obtain ⟨_, -, h⟩ := Option.map_eq_some_iff.mp htmp
    cases h

theorem Good.wellFormed {s : State n} (h : Good recordings s) : WellFormed s := by
  intro text htext
  obtain ⟨i, hentry, rfl⟩ := Option.map_eq_some_iff.mp htext
  exact (h.files.cache i hentry).object

theorem Good.recorded {s : State n} (h : Good recordings s) {p : Fin n}
    (hp : s.phase p = .returned) : Recorded recordings s p := by
  have hreturned : Returned recordings s (cacheKey (recordings p)) := ⟨p, hp, rfl⟩
  cases hentry : s.files.entry .cache with
  | none => exact absurd hreturned (h.files.absent hentry _)
  | some i =>
      have htext : s.files.text .cache = some (s.files.content i) := by
        rw [Files.text, hentry, Option.map_some]
      exact ⟨_, htext, (h.files.cache i hentry).entries _ hreturned⟩

theorem Good.not_raised {s : State n} (h : Good recordings s) (p : Fin n) :
    s.phase p ≠ .raised := by
  intro hp
  have hcall := h.calls p
  rw [hp] at hcall
  exact hcall

end Invariant

/-! ## A renaming beside another call -/

section Beside

variable {n : Nat} {recordings : Fin n → Recording} {cache tmp : Option (List Char)}
  {s : State n} {p q : Fin n}

@[simp] theorem moved_moved (f g : Directory) (ph ph' : Phase) :
    (s.moved q f ph).moved q g ph' = s.moved q g ph' := by
  simp [State.moved]

/-- A run begins with a step of `q`. -/
theorem run_cons_of_advance {t : State n} {a : Action} {schedule : List (Fin n × Action)}
    {g : Directory} {ph ph' : Phase} (hq : s.phase q = ph)
    (hadvance : advance (recordings q) s.files ph a = some (g, ph'))
    (hrun : (machine recordings cache tmp).run (s.moved q g ph') schedule = some ([], t)) :
    (machine recordings cache tmp).run s ((q, a) :: schedule) = some ([], t) := by
  have hstep : (machine recordings cache tmp).step s (q, a) = some ([], s.moved q g ph') := by
    show step recordings s (q, a) = _
    rw [step, hq, hadvance, Option.map_some]
  exact Machine.run_cons_eq_some.mpr ⟨[], _, [], hstep, hrun, rfl⟩

/-- And goes on with one. -/
theorem run_moved_cons {t : State n} {a : Action} {schedule : List (Fin n × Action)}
    {f g : Directory} {ph ph' : Phase}
    (hadvance : advance (recordings q) f ph a = some (g, ph'))
    (hrun : (machine recordings cache tmp).run (s.moved q g ph') schedule = some ([], t)) :
    (machine recordings cache tmp).run (s.moved q f ph) ((q, a) :: schedule) =
      some ([], t) := by
  refine run_cons_of_advance (State.moved_phase_self _ _ _ _) hadvance ?_
  rw [moved_moved]
  exact hrun

/-- A call that is writing can write all that is left and close the file. -/
theorem run_writing {i pos : Nat} {rest : List Char} (hq : s.phase q = .writing i pos rest) :
    ∃ schedule g, (machine recordings cache tmp).run s schedule =
        some ([], s.moved q g .closed) ∧ g.entry = s.files.entry ∧
      (pos = (s.files.content i).length → g.content i = s.files.content i ++ rest) := by
  cases rest with
  | nil =>
      refine ⟨[(q, .close)], s.files, run_cons_of_advance hq rfl (Machine.run_nil _ _), rfl, ?_⟩
      intro _
      rw [List.append_nil]
  | cons c rest =>
      have hwrite : advance (recordings q) s.files (.writing i pos (c :: rest))
          (.write rest.length) = some (s.files.writeAt '\x00' i pos (c :: rest),
            .writing i (pos + (c :: rest).length) []) := by
        rw [advance, List.take_length, List.drop_length]
      refine ⟨[(q, .write rest.length), (q, .close)], s.files.writeAt '\x00' i pos (c :: rest),
        run_cons_of_advance hq hwrite (run_moved_cons rfl (Machine.run_nil _ _)), rfl, ?_⟩
      rintro rfl
      rw [Files.writeAt_content_self, Files.overwrite_length]

/-- A call with its dict can make it the cache file. -/
theorem run_loaded {entries : Entries} (hq : s.phase q = .loaded entries)
    (htmp : s.files.entry .tmp = none) :
    ∃ schedule g, (machine recordings cache tmp).run s schedule =
        some ([], s.moved q g .returned) ∧ g.text .cache = some (dumped entries) := by
  obtain ⟨writing, f, hwriting, hentry, hcontent⟩ := @run_writing n recordings cache tmp
    (s.moved q (s.files.openWrite .tmp) (.writing (s.files.target .tmp) 0 (dumped entries))) q
    _ _ _ (State.moved_phase_self _ _ _ _)
  rw [State.moved_files, Files.openWrite_content_target] at hcontent
  rw [State.moved_files] at hentry
  rw [moved_moved] at hwriting
  have hsrc : f.entry .tmp = some (s.files.target .tmp) := by
    rw [hentry, Files.openWrite_entry_self]
  have hdst : f.entry .cache ≠ some (s.files.target .tmp) := by
    rw [hentry, Files.openWrite_entry_of_ne (by decide)]
    intro heq
    exact Files.ne_target (s.files.named _ _ heq) (by simp [htmp]) rfl
  obtain ⟨g, hrename⟩ := @Files.rename_isSome _ _ _ f .tmp .cache _ hsrc
  obtain ⟨hsame, -, -, hcache⟩ := Files.rename_eq_some hsrc hdst hrename
  have hreplace : advance (recordings q) f .closed .replace = some (g, .returned) := by
    rw [advance, hrename]
  refine ⟨(q, .openWrite) :: (writing ++ [(q, .replace)]), g, run_cons_of_advance hq rfl
    (Machine.run_append_eq_some.mpr ⟨[], _, [], hwriting, ?_, rfl⟩), ?_⟩
  · exact run_moved_cons hreplace (Machine.run_nil _ _)
  · rw [Files.text, hcache (by decide), Option.map_some, hsame, hcontent rfl, List.nil_append]

theorem advance_loads {r : Recording} {f : Directory} {i pos count : Nat} {text : List Char}
    (hend : f.chunk i pos (count + 1) = []) :
    advance r f (.reading i pos text) (.read count) =
      some (f, .loaded (r.enter (cacheLoad text))) := by
  rw [advance, hend]

theorem advance_reads {r : Recording} {f : Directory} {i pos count : Nat} {text : List Char}
    (hleft : f.chunk i pos (count + 1) ≠ []) :
    advance r f (.reading i pos text) (.read count) =
      some (f, .reading i (pos + (f.chunk i pos (count + 1)).length)
        (text ++ f.chunk i pos (count + 1))) := by
  rw [advance]
  split
  · next hend => exact absurd hend hleft
  · rfl

/-- A call that is reading can read to the end. -/
theorem run_reading {i pos : Nat} {text : List Char} (hq : s.phase q = .reading i pos text)
    (htext : text = (s.files.content i).take pos) :
    ∃ schedule, (machine recordings cache tmp).run s schedule = some ([], s.moved q s.files
      (.loaded ((recordings q).enter (cacheLoad (s.files.content i))))) := by
  rcases eq_or_ne (s.files.chunk i pos ((s.files.content i).length + 1)) [] with hend | hleft
  · rw [Files.take_of_chunk_eq_nil hend] at htext
    have hloads := @advance_loads (recordings q) _ _ _ _ text hend
    rw [htext] at hq hloads
    exact ⟨_, run_cons_of_advance hq hloads (Machine.run_nil _ _)⟩
  · have hreads := @advance_reads (recordings q) _ _ _ _ text hleft
    have hall : text ++ s.files.chunk i pos ((s.files.content i).length + 1) =
        s.files.content i := by
      rw [htext, Files.chunk_length, List.take_append_drop]
    rw [hall, Files.chunk_length] at hreads
    have hloads := @advance_loads (recordings q) _ _ _ 0 (s.files.content i)
      (@Files.chunk_end _ _ s.files i pos (0 + 1))
    exact ⟨_, run_cons_of_advance hq hreads (run_moved_cons hloads (Machine.run_nil _ _))⟩

/-- Without a temporary file a call that uses it can only fail. -/
theorem raises_of_usesTmp (huses : (s.phase q).usesTmp) (htmp : s.files.entry .tmp = none) :
    ∃ schedule t, (machine recordings cache tmp).run s schedule = some ([], t) ∧
      t.phase q = .raised := by
  have hfails : ∀ f : Directory, f.entry .tmp = none →
      advance (recordings q) f .closed .replace = some (f, .raised) := by
    intro f hf
    rw [advance, Files.rename, hf]
  cases hphase : s.phase q with
  | closed =>
      refine ⟨[(q, .replace)], s.moved q s.files .raised, ?_, State.moved_phase_self _ _ _ _⟩
      exact run_cons_of_advance hphase (hfails _ htmp) (Machine.run_nil _ _)
  | writing i pos rest =>
      obtain ⟨schedule, g, hrun, hentry, -⟩ :=
        @run_writing n recordings cache tmp s q i pos rest hphase
      have hgone : g.entry .tmp = none := by rw [hentry, htmp]
      refine ⟨schedule ++ [(q, .replace)], s.moved q g .raised, ?_,
        State.moved_phase_self _ _ _ _⟩
      exact Machine.run_append_eq_some.mpr ⟨[], _, [], hrun,
        run_moved_cons (hfails g hgone) (Machine.run_nil _ _), rfl⟩
  | _ =>
      rw [hphase] at huses
      cases huses

/-- A call whose dict lacks the entry of one that has returned can lose it. -/
theorem loses_of_loaded {entries : Entries} (hne : q ≠ p) (hp : s.phase p = .returned)
    (hq : s.phase q = .loaded entries) (htmp : s.files.entry .tmp = none)
    (hlacks : cacheKey (recordings p) ∉ entries.map Prod.fst) :
    ∃ schedule t, (machine recordings cache tmp).run s schedule = some ([], t) ∧
      t.phase p = .returned ∧ ¬ Recorded recordings t p := by
  obtain ⟨schedule, g, hrun, htext⟩ := @run_loaded n recordings cache tmp s q entries hq htmp
  refine ⟨schedule, _, hrun, (State.moved_phase_of_ne hne.symm).trans hp, ?_⟩
  rintro ⟨text, hcurrent, hmem⟩
  cases htext.symm.trans hcurrent
  exact hlacks (mem_keysOf_dumped.mp hmem)

/-- The condition leaves no renaming out that could not go wrong: after one that a call does
beside another, there are steps of the other that fail or lose the entry. -/
theorem fails_of_not_alone (h : Good recordings s) (hclosed : s.phase p = .closed)
    (hbeside : ¬ RenamesAlone recordings s (p, .replace)) :
    ∃ schedule t, (machine recordings cache tmp).run s ((p, .replace) :: schedule) =
        some ([], t) ∧
      ((∃ q, t.phase q = .raised) ∨ t.phase p = .returned ∧ ¬ Recorded recordings t p) := by
  have hcall := h.calls p
  rw [hclosed] at hcall
  obtain ⟨i, htmp, -⟩ := hcall
  have hapart : s.files.entry .cache ≠ some i := fun hi => h.files.apart i hi htmp
  obtain ⟨g, hrename⟩ := @Files.rename_isSome _ _ _ s.files .tmp .cache _ htmp
  obtain ⟨hsame, -, hgone, -⟩ := Files.rename_eq_some htmp hapart hrename
  have hreplace : advance (recordings p) s.files .closed .replace = some (g, .returned) := by
    rw [advance, hrename]
  simp only [RenamesAlone, not_forall, not_and_or, not_not] at hbeside
  obtain ⟨q, hne, hbeside⟩ := hbeside
  have hstays : (s.moved p g .returned).phase q = s.phase q := State.moved_phase_of_ne hne
  cases hbeside with
  | inl huses =>
      rw [← hstays] at huses
      obtain ⟨schedule, t, hrun, hraised⟩ :=
        @raises_of_usesTmp n recordings cache tmp _ q huses hgone
      exact ⟨_, t, run_cons_of_advance hclosed hreplace hrun, .inl ⟨q, hraised⟩⟩
  | inr hlacks =>
      cases hphase : s.phase q with
      | loaded entries =>
          rw [hphase] at hstays hlacks
          obtain ⟨schedule, t, hrun, hlost⟩ := @loses_of_loaded n recordings cache tmp _ p q
            entries hne (State.moved_phase_self _ _ _ _) hstays hgone hlacks
          exact ⟨_, t, run_cons_of_advance hclosed hreplace hrun, .inr hlost⟩
      | reading i pos text =>
          have hreader := h.calls q
          rw [hphase] at hstays hlacks hreader
          obtain ⟨-, -, -, htext⟩ := hreader
          rw [← hsame] at htext
          obtain ⟨reads, hreads⟩ :=
            @run_reading n recordings cache tmp _ q i pos text hstays htext
          have hlacks' : cacheKey (recordings p) ∉
              ((recordings q).enter (cacheLoad (g.content i))).map Prod.fst := by
            rw [mem_map_fst_enter, hsame]
            exact hlacks
          obtain ⟨schedule, t, hrun, hlost⟩ := @loses_of_loaded n recordings cache tmp _ p q _ hne
            ((State.moved_phase_of_ne hne.symm).trans (State.moved_phase_self _ _ _ _))
            (State.moved_phase_self _ _ _ _) hgone hlacks'
          refine ⟨reads ++ schedule, t, run_cons_of_advance hclosed hreplace ?_,
            .inr hlost⟩
          exact Machine.run_append_eq_some.mpr ⟨[], _, [], hreads, hrun, rfl⟩
      | _ =>
          rw [hphase] at hlacks
          exact absurd trivial hlacks

end Beside

/-! ## No entry is lost -/

/-- Where every renaming is one that its call does alone, no entry is lost: in every state
the cache file is absent or a complete object, and it has the entry of every call that has
returned.  No call fails either. -/
theorem entries_kept {n : Nat} (recordings : Fin n → Recording)
    (cache tmp : Option (List Char)) (hcache : ∀ text ∈ cache, IsObject text)
    {schedule : List (Fin n × Action)} {es : List Empty} {s : State n}
    (halone : (machine recordings cache tmp).Meets (RenamesAlone recordings)
      (machine recordings cache tmp).init schedule)
    (hrun : (machine recordings cache tmp).run (machine recordings cache tmp).init schedule =
      some (es, s)) :
    WellFormed s ∧ (∀ p, s.phase p = .returned → Recorded recordings s p) ∧
      ∀ p, s.phase p ≠ .raised := by
  have hgood : Good recordings s :=
    Machine.history_reachable (H := fun _ s => Good recordings s) (good_start hcache)
      (fun _ _ _ _ _ h halone hstep => good_step h halone hstep) halone hrun
  exact ⟨hgood.wellFormed, fun p => hgood.recorded, hgood.not_raised⟩

/-- The winners of two shapes. -/
def twoShapes : Fin 2 → Recording := fun p =>
  { B := 1, H := 8, Sq := 1024 * (p + 1), Skv := 1024 * (p + 1), D := 128, causal := false,
    cfg := [(unitsOf "BLOCK_M", .num (.int 128)), (unitsOf "BLOCK_N", .num (.int 64)),
      (unitsOf "num_warps", .num (.int 4)), (unitsOf "num_stages", .num (.int 2))] }

/-- The second call begins when the first has returned. -/
def oneByOne : List (Fin 2 × Action) :=
  [(0, .exists), (0, .openWrite), (0, .write 60), (0, .write 500), (0, .close), (0, .replace),
    (1, .exists), (1, .openRead), (1, .read 70), (1, .read 500), (1, .read 500),
    (1, .openWrite), (1, .write 500), (1, .close), (1, .replace)]

theorem entries_kept_two :
    ∃ r ∈ (machine twoShapes none none).run (machine twoShapes none none).init oneByOne,
      (∀ p, r.2.phase p = .returned) ∧ WellFormed r.2 ∧
      (∀ p, r.2.phase p = .returned → Recorded twoShapes r.2 p) ∧ ∀ p, r.2.phase p ≠ .raised := by
  have hrun : ∃ r ∈ (machine twoShapes none none).run (machine twoShapes none none).init oneByOne,
      ∀ p, r.2.phase p = .returned := by
    decide +kernel
  obtain ⟨⟨es, s⟩, hr, hall⟩ := hrun
  exact ⟨(es, s), hr, hall, entries_kept twoShapes none none (by simp) (by decide +kernel) hr⟩

/-- Both find no cache file, then one after the other goes on to the end. -/
def bothAbsent : List (Fin 2 × Action) :=
  [(0, .exists), (1, .exists), (0, .openWrite), (0, .write 500), (0, .close), (0, .replace),
    (1, .openWrite), (1, .write 500), (1, .close), (1, .replace)]

/-- The second opens the temporary file that the first is about to rename. -/
def sharedTmp : List (Fin 2 × Action) :=
  [(0, .exists), (1, .exists), (0, .openWrite), (0, .write 500), (0, .close),
    (1, .openWrite), (0, .replace)]

/-- Two calls, from no files: both return and one entry is missing, or the cache file is left
empty. -/
theorem entries_lost :
    (∃ r ∈ (machine twoShapes none none).run (machine twoShapes none none).init bothAbsent,
      (∀ p, r.2.phase p = .returned) ∧ ¬ Recorded twoShapes r.2 0) ∧
    ∃ r ∈ (machine twoShapes none none).run (machine twoShapes none none).init sharedTmp,
      ¬ WellFormed r.2 := by
  decide +kernel

end Repercep.Kernels.ConfigCache
