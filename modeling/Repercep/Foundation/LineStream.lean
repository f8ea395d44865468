import Mathlib.Data.List.Basic
set_option autoImplicit false

/-!
# Line-buffered stream transducers

A transducer that works line by line on a stream cut into chunks anywhere: it keeps
the open line in a buffer, hands each completed line to a step function, and stops
at the first line on which the step fails.  Whatever the step does, the cuts are
invisible: what comes out and the state reached depend only on the concatenation of
the chunks.
-/

namespace Repercep.Foundation.LineStream

/-- How a pass over some input ends: the output or the error that stopped it, the
state it left, and what it did not consume, which is the open line or, after an
error, the input behind the failing line. -/
structure Pass (α σ ε : Type) where
  result : Except ε (List α)
  state : σ
  rest : List α

section

variable {α σ ε : Type}

/-- Put earlier output before that of a pass. -/
def Pass.after (out : List α) (p : Pass α σ ε) : Pass α σ ε :=
  { p with result := p.result.map (out ++ ·) }

@[simp] theorem Pass.after_state (out : List α) (p : Pass α σ ε) :
    (p.after out).state = p.state := rfl
@[simp] theorem Pass.after_rest (out : List α) (p : Pass α σ ε) :
    (p.after out).rest = p.rest := rfl
@[simp] theorem Pass.after_result (out : List α) (p : Pass α σ ε) :
    (p.after out).result = p.result.map (out ++ ·) := rfl

theorem Pass.after_after (out out' : List α) (p : Pass α σ ε) :
    (p.after out').after out = p.after (out ++ out') := by
  unfold Pass.after
  cases p.result <;> simp [Except.map]

@[simp] theorem Pass.after_nil (p : Pass α σ ε) : p.after [] = p := by
  obtain ⟨result, state, rest⟩ := p
  cases result <;> simp [Pass.after, Except.map]

variable (isEnd : α → Bool) (step : σ → List α → Except ε (List α) × σ)

/-- Read the input with `line` open: every element that ends a line completes it,
and the completed line goes through the step. -/
def scan (s : σ) (line : List α) : List α → Pass α σ ε
  | [] => ⟨.ok [], s, line⟩
  | a :: as =>
      if isEnd a then
        match step s (line ++ [a]) with
        | (.error e, s') => ⟨.error e, s', as⟩
        | (.ok out, s') => (scan s' [] as).after out
      else scan s (line ++ [a]) as

/-- Take one chunk, the open line being in the buffer. -/
def feed (s : σ) (buffer chunk : List α) : Pass α σ ε :=
  scan isEnd step s [] (buffer ++ chunk)

/-- Take chunk after chunk, up to the first error. -/
def feedAll (s : σ) (buffer : List α) : List (List α) → Pass α σ ε
  | [] => ⟨.ok [], s, buffer⟩
  | chunk :: chunks =>
      match (feed isEnd step s buffer chunk).result with
      | .error _ => feed isEnd step s buffer chunk
      | .ok out =>
          (feedAll (feed isEnd step s buffer chunk).state
            (feed isEnd step s buffer chunk).rest chunks).after out

/-- Go on from where a pass ended. -/
def Pass.resume (p : Pass α σ ε) (input : List α) : Pass α σ ε :=
  match p.result with
  | .error e => ⟨.error e, p.state, p.rest ++ input⟩
  | .ok out => (scan isEnd step p.state p.rest input).after out

theorem Pass.after_resume (out : List α) (p : Pass α σ ε) (input : List α) :
    (p.after out).resume isEnd step input = (p.resume isEnd step input).after out := by
  obtain ⟨result, state, rest⟩ := p
  cases result with
  | error e => rfl
  | ok out' => simp [Pass.resume, Pass.after_after, Except.map]

/-- Reading a concatenation is reading its parts one after the other. -/
theorem scan_append (xs ys : List α) :
    ∀ (s : σ) (line : List α),
      scan isEnd step s line (xs ++ ys) =
        (scan isEnd step s line xs).resume isEnd step ys := by
  induction xs with
  | nil =>
      intro s line
      simp [scan, Pass.resume]
  | cons a as ih =>
      intro s line
      rw [List.cons_append]
      unfold scan
      by_cases ha : isEnd a = true
      · rw [if_pos ha, if_pos ha]
        rcases step s (line ++ [a]) with ⟨e | out, s'⟩
        · rfl
        · simp only
          rw [ih, Pass.after_resume]
      · rw [if_neg ha, if_neg ha, ih]

/-- Input without a line end only lengthens the open line. -/
theorem scan_of_open {xs : List α} (hopen : ∀ a ∈ xs, isEnd a = false) (ys : List α) :
    ∀ (s : σ) (line : List α),
      scan isEnd step s line (xs ++ ys) = scan isEnd step s (line ++ xs) ys := by
  induction xs with
  | nil =>
      intro s line
      simp
  | cons a as ih =>
      intro s line
      have ha : isEnd a = false := hopen a (List.mem_cons_self ..)
      rw [List.cons_append, scan, ha, if_neg Bool.false_ne_true,
        ih (fun b hb => hopen b (List.mem_cons_of_mem _ hb))]
      simp

/-- A complete line at the front of the input goes through the step. -/
theorem scan_line {body : List α} {a : α} (hopen : ∀ b ∈ body, isEnd b = false)
    (ha : isEnd a = true) (s : σ) (xs : List α) :
    scan isEnd step s [] (body ++ [a] ++ xs) =
      match step s (body ++ [a]) with
      | (.error e, s') => ⟨.error e, s', xs⟩
      | (.ok out, s') => (scan isEnd step s' [] xs).after out := by
  rw [List.append_assoc, scan_of_open isEnd step hopen, List.nil_append, List.cons_append,
    List.nil_append, scan, if_pos ha]

/-- After a pass without error, the rest is an open line. -/
theorem rest_open (xs : List α) :
    ∀ (s : σ) (line : List α) (out : List α), (∀ a ∈ line, isEnd a = false) →
      (scan isEnd step s line xs).result = .ok out →
        ∀ a ∈ (scan isEnd step s line xs).rest, isEnd a = false := by
  induction xs with
  | nil =>
      intro s line out hline _ a ha
      exact hline a ha
  | cons b bs ih =>
      intro s line out hline hok
      unfold scan at hok ⊢
      by_cases hb : isEnd b = true
      · rw [if_pos hb] at hok ⊢
        rcases hstep : step s (line ++ [b]) with ⟨e | out', s'⟩
        · simp [hstep] at hok
        · simp only [hstep] at hok ⊢
          cases hrest : (scan isEnd step s' [] bs).result with
          | error e => simp [hrest, Except.map] at hok
          | ok rest =>
              have hnone : ∀ a ∈ ([] : List α), isEnd a = false := by simp
              exact ih s' [] rest hnone hrest
      · rw [if_neg hb] at hok ⊢
        refine ih s (line ++ [b]) out ?_ hok
        intro a ha
        rcases List.mem_append.mp ha with ha | ha
        · exact hline a ha
        · rw [List.mem_singleton.mp ha]
          simpa using hb

/-- The complete lines of an input with `line` open, and the line it leaves open. -/
def lines (line : List α) : List α → List (List α) × List α
  | [] => ([], line)
  | a :: as =>
      if isEnd a then ((line ++ [a]) :: (lines [] as).1, (lines [] as).2)
      else lines (line ++ [a]) as

/-- An invariant of the lines read so far.  When the step accepts every complete line of
the input and carries the invariant over it, the pass ends without error, in a state
that satisfies the invariant, and leaves the last line open. -/
theorem scan_invariant {A : List α → Prop} {P : List (List α) → σ → Prop}
    (hstep : ∀ done s line, P done s → A line →
      ∃ out s', step s line = (.ok out, s') ∧ P (done ++ [line]) s') (xs : List α) :
    ∀ (s : σ) (line : List α) (done : List (List α)), P done s →
      (∀ l ∈ (lines isEnd line xs).1, A l) →
        ∃ out s', scan isEnd step s line xs = ⟨.ok out, s', (lines isEnd line xs).2⟩ ∧
          P (done ++ (lines isEnd line xs).1) s' := by
  induction xs with
  | nil =>
      intro s line done hP _
      exact ⟨[], s, rfl, by simpa [lines] using hP⟩
  | cons a as ih =>
      intro s line done hP hA
      rw [lines] at hA ⊢
      rw [scan]
      by_cases ha : isEnd a = true
      · rw [if_pos ha] at hA ⊢
        rw [if_pos ha]
        obtain ⟨out, s₁, hone, hP₁⟩ :=
          hstep done s (line ++ [a]) hP (hA _ List.mem_cons_self)
        obtain ⟨rest, s₂, hscan, hP₂⟩ := ih s₁ [] (done ++ [line ++ [a]]) hP₁
          fun l hl => hA l (List.mem_cons_of_mem _ hl)
        refine ⟨out ++ rest, s₂, ?_, by simpa using hP₂⟩
        rw [hone]
        simp only [hscan, Pass.after, Except.map]
      · rw [if_neg ha] at hA ⊢
        rw [if_neg ha]
        exact ih s (line ++ [a]) done hP hA

/-- Hand lines to the step, one after the other, up to the first error. -/
def passLines (s : σ) : List (List α) → Except ε (List α) × σ
  | [] => (.ok [], s)
  | l :: ls =>
      match step s l with
      | (.error e, s') => (.error e, s')
      | (.ok out, s') => ((passLines s' ls).1.map (out ++ ·), (passLines s' ls).2)

/-- Reading an input is handing its complete lines to the step. -/
theorem scan_eq_passLines (xs : List α) :
    ∀ (s : σ) (line : List α),
      (scan isEnd step s line xs).result = (passLines step s (lines isEnd line xs).1).1 ∧
        ∀ out, (scan isEnd step s line xs).result = .ok out →
          (scan isEnd step s line xs).rest = (lines isEnd line xs).2 := by
  induction xs with
  | nil => exact fun s line => ⟨rfl, fun _ _ => rfl⟩
  | cons a as ih =>
      intro s line
      rw [lines, scan]
      by_cases ha : isEnd a = true
      · rw [if_pos ha, if_pos ha, passLines]
        rcases step s (line ++ [a]) with ⟨e | out, s'⟩
        · exact ⟨rfl, fun out h => nomatch h⟩
        · obtain ⟨hresult, hrest⟩ := ih s' []
          refine ⟨congrArg (Except.map (out ++ ·)) hresult, fun out' h => ?_⟩
          cases hinner : (scan isEnd step s' [] as).result with
          | error e => simp [hinner, Except.map] at h
          | ok fs => exact hrest fs hinner
      · rw [if_neg ha, if_neg ha]
        exact ih s (line ++ [a])

/-- A line that ends in its only line end. -/
def IsLine (l : List α) : Prop := ∃ body a, l = body ++ [a] ∧ isEnd a = true ∧
  ∀ b ∈ body, isEnd b = false

theorem isLine_of_mem_lines (xs : List α) :
    ∀ (line : List α), (∀ b ∈ line, isEnd b = false) →
      ∀ l ∈ (lines isEnd line xs).1, IsLine isEnd l := by
  induction xs with
  | nil => exact fun _ _ l hl => nomatch hl
  | cons a as ih =>
      intro line hopen l hl
      rw [lines] at hl
      by_cases ha : isEnd a = true
      · rw [if_pos ha] at hl
        rcases List.mem_cons.mp hl with rfl | hl
        · exact ⟨line, a, rfl, ha, hopen⟩
        · exact ih [] (fun _ hb => nomatch hb) l hl
      · rw [if_neg ha] at hl
        refine ih (line ++ [a]) ?_ l hl
        intro b hb
        rcases List.mem_append.mp hb with hb | hb
        · exact hopen b hb
        · exact List.mem_singleton.mp hb ▸ eq_false_of_ne_true ha

theorem open_lines (xs : List α) :
    ∀ (line : List α), (∀ b ∈ line, isEnd b = false) →
      ∀ b ∈ (lines isEnd line xs).2, isEnd b = false := by
  induction xs with
  | nil => exact fun line hopen => hopen
  | cons a as ih =>
      intro line hopen
      rw [lines]
      by_cases ha : isEnd a = true
      · rw [if_pos ha]
        exact ih [] fun _ hb => nomatch hb
      · rw [if_neg ha]
        refine ih (line ++ [a]) ?_
        intro b hb
        rcases List.mem_append.mp hb with hb | hb
        · exact hopen b hb
        · exact List.mem_singleton.mp hb ▸ eq_false_of_ne_true ha

/-- The lines of an input and its open end make it up. -/
theorem flatten_lines (xs : List α) :
    ∀ (line : List α), (lines isEnd line xs).1.flatten ++ (lines isEnd line xs).2 = line ++ xs := by
  induction xs with
  | nil =>
      intro line
      simp [lines]
  | cons a as ih =>
      intro line
      rw [lines]
      by_cases ha : isEnd a = true
      · rw [if_pos ha, List.flatten_cons, List.append_assoc, ih, List.nil_append,
          List.append_assoc, List.singleton_append]
      · rw [if_neg ha, ih, List.append_assoc, List.singleton_append]

theorem lines_of_open {xs : List α} (hopen : ∀ b ∈ xs, isEnd b = false) (ys : List α) :
    ∀ (line : List α), lines isEnd line (xs ++ ys) = lines isEnd (line ++ xs) ys := by
  induction xs with
  | nil =>
      intro line
      simp
  | cons a as ih =>
      intro line
      have ha : isEnd a = false := hopen a List.mem_cons_self
      rw [List.cons_append, lines, ha, if_neg Bool.false_ne_true,
        ih fun b hb => hopen b (List.mem_cons_of_mem _ hb)]
      simp

/-- The lines of a beginning of the input are the first of its lines. -/
theorem lines_append (xs ys : List α) :
    ∀ (line : List α), lines isEnd line (xs ++ ys) =
      ((lines isEnd line xs).1 ++ (lines isEnd (lines isEnd line xs).2 ys).1,
        (lines isEnd (lines isEnd line xs).2 ys).2) := by
  induction xs with
  | nil => exact fun line => rfl
  | cons a as ih =>
      intro line
      rw [List.cons_append, lines, lines]
      by_cases ha : isEnd a = true
      · rw [if_pos ha, if_pos ha, ih]
        rfl
      · rw [if_neg ha, if_neg ha, ih]

/-- There is a complete line for each line end. -/
theorem length_lines (xs : List α) :
    ∀ (line : List α), (lines isEnd line xs).1.length = xs.countP isEnd := by
  induction xs with
  | nil => exact fun line => rfl
  | cons a as ih =>
      intro line
      rw [lines]
      by_cases ha : isEnd a = true
      · rw [if_pos ha, List.length_cons, ih, List.countP_cons_of_pos ha]
      · rw [if_neg ha, ih, List.countP_cons_of_neg ha]

/-- Lines and an open end can be told from what they make up. -/
theorem lines_flatten {tail : List α} (htail : ∀ b ∈ tail, isEnd b = false) :
    ∀ (ls : List (List α)), (∀ l ∈ ls, IsLine isEnd l) →
      lines isEnd [] (ls.flatten ++ tail) = (ls, tail) := by
  intro ls
  induction ls with
  | nil =>
      intro _
      have hopen := lines_of_open isEnd htail [] []
      rwa [List.append_nil] at hopen
  | cons l ls ih =>
      intro hlines
      obtain ⟨body, a, rfl, ha, hopen⟩ := hlines l List.mem_cons_self
      rw [List.flatten_cons, List.append_assoc, List.append_assoc, lines_of_open isEnd hopen,
        List.nil_append, List.singleton_append, lines, if_pos ha,
        ih fun l hl => hlines l (List.mem_cons_of_mem _ hl)]

/-- The cuts are invisible: chunk by chunk, the same comes out and the same state is
reached as from the concatenation, and without an error the same line is open. -/
theorem feedAll_eq_scan (chunks : List (List α)) :
    ∀ (s : σ) (buffer : List α), (∀ a ∈ buffer, isEnd a = false) →
      (feedAll isEnd step s buffer chunks).result =
          (scan isEnd step s buffer chunks.flatten).result ∧
        (feedAll isEnd step s buffer chunks).state =
          (scan isEnd step s buffer chunks.flatten).state ∧
        ∀ out, (scan isEnd step s buffer chunks.flatten).result = .ok out →
          (feedAll isEnd step s buffer chunks).rest =
            (scan isEnd step s buffer chunks.flatten).rest := by
  induction chunks with
  | nil =>
      intro s buffer _
      simp [feedAll, scan]
  | cons chunk chunks ih =>
      intro s buffer hopen
      have hfeed : feed isEnd step s buffer chunk = scan isEnd step s buffer chunk := by
        rw [feed, scan_of_open isEnd step hopen]
        simp
      rw [List.flatten_cons, scan_append, feedAll, hfeed]
      cases hresult : (scan isEnd step s buffer chunk).result with
      | error e => simp [Pass.resume, hresult]
      | ok out =>
          have hrest := rest_open isEnd step chunk s buffer out hopen hresult
          obtain ⟨h₁, h₂, h₃⟩ := ih (scan isEnd step s buffer chunk).state
            (scan isEnd step s buffer chunk).rest hrest
          simp only [Pass.resume, hresult, Pass.after_result, Pass.after_state,
            Pass.after_rest]
          refine ⟨by rw [h₁], h₂, ?_⟩
          intro out' hout'
          cases hinner : (scan isEnd step (scan isEnd step s buffer chunk).state
              (scan isEnd step s buffer chunk).rest chunks.flatten).result with
          | error e => simp [hinner, Except.map] at hout'
          | ok rest => exact h₃ rest hinner

end

end Repercep.Foundation.LineStream
