import Repercep.Metering.PlanRequest
set_option autoImplicit false

/-!
# Metering: what becomes of a request body

`json.loads` and `json.dumps` on the bodies that RFC 8259 allows, and what `plan_request`
makes of them.  A number with a point or an exponent becomes a double and is written as the
shortest literal of the double, or, beyond the doubles, as a name that is not JSON; the
arrays and objects of a body, and the digits of its integers, have to stay within the limits
of the interpreter.
-/

namespace Repercep.Metering

open Repercep.Foundation

/-! ## The codec -/

/-- The limits of the interpreter: how deeply arrays and objects may be nested for
`json.loads` and for `json.dumps`, and how long an integer may be. -/
structure Limits where
  readDepth : Nat
  writeDepth : Nat
  intDigits : Nat

/-- `int(literal)` refuses the literal. -/
def Limits.tooLong (limits : Limits) : Lexeme → Bool
  | .literal l => l.isInteger && decide (limits.intDigits < l.whole.length)
  | .infinity _ => false
  | .nan => false

/-- `json.loads`.  What is no JSON in UTF-8 is left to `foreign`: other encodings, a byte
order mark, the errors of a malformed body. -/
def loadsJson (limits : Limits) (foreign : LoadsRequest) : LoadsRequest := fun raw =>
  match (decodeUtf8 raw).bind parseJson with
  | none => foreign raw
  | some t =>
      if limits.readDepth < t.depth then .error (.other "RecursionError")
      else if t.nums.any limits.tooLong then .error (.other "ValueError")
      else .ok (t.map numberOfLexeme).resolve

/-- `json.dumps(value).encode("utf-8")`. -/
def dumpsJson (limits : Limits) : DumpsRequest := fun value =>
  if limits.writeDepth < value.depth then .error (.other "RecursionError")
  else .ok (encodeUtf8 (value.map lexemeOf).write)

/-! ## Bodies -/

/-- A body that is JSON in UTF-8. -/
structure JsonBody where
  tree : JsonTree Literal
  text : List Char
  isText : tree.IsText text

/-- The body in UTF-8. -/
def JsonBody.bytes (body : JsonBody) : Bytes := encodeUtf8 body.text

/-- The body as the writer writes it. -/
def JsonBody.ofTree (tree : JsonTree Literal) : JsonBody where
  tree := tree
  text := (tree.map Lexeme.literal).write
  isText := spells_write_nil (tree.map Lexeme.literal)

/-- A body within the limits of `json.loads`. -/
def Limits.Reads (limits : Limits) (t : JsonTree Literal) : Prop :=
  t.depth ≤ limits.readDepth ∧
    ∀ l ∈ t.nums, l.isInteger = true → l.whole.length ≤ limits.intDigits

/-- What a document says at the end of a path; a number says its decimal value. -/
def tells (t : JsonTree Literal) (p : List JsonTree.Step) : Option (JsonTree.Shape ℚ) :=
  (t.view p).map (.map Literal.value)

/-- The step to `stream_options`. -/
def optionsStep : JsonTree.Step := .member streamOptions

/-- The step to `include_usage`. -/
def usageStep : JsonTree.Step := .member includeUsage

/-- The body is an object whose `stream` is true for Python and whose `stream_options` do
not say whether to include the usage. -/
def Injects : JsonTree Literal → Prop
  | .obj members =>
      (∃ v, lastValue streamKey members = some v ∧ truthOf (loaded v) = true) ∧
        (JsonTree.obj members).view [optionsStep, usageStep] = none
  | _ => False

/-- The body says what the other one says, but that it asks for the usage.  Content of
`stream_options` that is no object has no place beside that. -/
structure AsksForUsage (raw out : JsonTree Literal) : Prop where
  usage : tells out [optionsStep, usageStep] = some (.bool true)
  options : tells raw [optionsStep] = none ∨ tells raw [optionsStep] = some .null ∨
    tells raw [optionsStep] = some .obj
  kept : ∀ s p, s ≠ usageStep →
    tells out (optionsStep :: s :: p) = tells raw (optionsStep :: s :: p)
  top : tells out [] = tells raw []
  rest : ∀ s p, s ≠ optionsStep → tells out (s :: p) = tells raw (s :: p)

/-- What `plan_request` promises of a body. -/
def Preserves (limits : Limits) (foreign : LoadsRequest) (body : JsonBody) : Prop :=
  ∃ plan, planRequest (loadsJson limits foreign) (dumpsJson limits) body.bytes = .ok plan ∧
    (plan.injectedUsage = true ↔ Injects body.tree) ∧
    (plan.injectedUsage = false → plan.body = body.bytes) ∧
    (plan.injectedUsage = true →
      ∃ out : JsonBody, plan.body = out.bytes ∧ AsksForUsage body.tree out.tree)

/-- `repr` of the double of the literal writes the same number. -/
def Faithful (l : Literal) : Prop :=
  l.isInteger = true ∨ ∃ l', (Double.ofLiteral l).repr = .literal l' ∧ l'.value = l.value

/-! ## Reading a body -/

theorem parseJson_text (body : JsonBody) :
    (decodeUtf8 body.bytes).bind parseJson = some (body.tree.map .literal) := by
  rw [JsonBody.bytes, decodeUtf8_encodeUtf8, Option.bind_some]
  exact parseJson_of_spells body.isText

theorem any_tooLong (limits : Limits) (t : JsonTree Literal) :
    (t.map Lexeme.literal).nums.any limits.tooLong = false ↔
      ∀ l ∈ t.nums, l.isInteger = true → l.whole.length ≤ limits.intDigits := by
  rw [JsonTree.nums_map, List.any_map, List.any_eq_false]
  simp [Limits.tooLong]

/-- A body is read as its value, or the interpreter gives up. -/
theorem loadsJson_bytes (limits : Limits) (foreign : LoadsRequest) (body : JsonBody) :
    (¬ limits.Reads body.tree ∧ ∃ e, e.caught = false ∧
        loadsJson limits foreign body.bytes = .error e) ∨
      (limits.Reads body.tree ∧ loadsJson limits foreign body.bytes = .ok (loaded body.tree)) := by
  unfold loadsJson Limits.Reads
  rw [parseJson_text]
  simp only [JsonTree.depth_map]
  by_cases hdepth : limits.readDepth < body.tree.depth
  · rw [if_pos hdepth]
    exact .inl ⟨fun h => by omega, _, rfl, rfl⟩
  · rw [if_neg hdepth]
    cases hlong : (body.tree.map Lexeme.literal).nums.any limits.tooLong with
    | true =>
        refine .inl ⟨fun h => ?_, .other "ValueError", rfl, rfl⟩
        rw [(any_tooLong limits body.tree).mpr h.2] at hlong
        cases hlong
    | false =>
        refine .inr ⟨⟨by omega, (any_tooLong limits body.tree).mp hlong⟩, ?_⟩
        rw [JsonTree.map_map]
        rfl

/-- What the code asks of the value it has read is what is asked of the body. -/
theorem injects_iff {members : List (Units × JsonTree Literal)}
    {parsed : List (Units × PyValue)}
    (hlast : ∀ k, lastValue k parsed = (lastValue k members).map loaded) :
    Injects (.obj members) ↔ streams parsed = true ∧ choosesUsage parsed = false := by
  unfold Injects streams choosesUsage
  rw [hlast streamKey, hlast streamOptions]
  refine and_congr ?_ ?_
  · cases lastValue streamKey members with
    | none => simp
    | some v => simp
  · change (lastValue streamOptions members).bind (fun u => u.view [usageStep]) = none ↔ _
    cases lastValue streamOptions members with
    | none => simp
    | some opts =>
        rw [Option.bind_some, Option.map_some]
        have hchild := child_loaded opts usageStep
        have hview : opts.view [usageStep] = none ↔ opts.child usageStep = none := by
          rw [JsonTree.view]
          cases opts.child usageStep <;> simp [JsonTree.view]
        rw [hview]
        cases opts with
        | obj members' =>
            obtain ⟨parsed', hparsed', -, hlast'⟩ := loaded_obj members'
            rw [hparsed']
            simp only [hlast' includeUsage]
            change lastValue includeUsage members' = none ↔ _
            cases lastValue includeUsage members' <;> simp
        | _ => exact iff_of_true rfl rfl

/-! ## The body that is written anew -/

section Written

variable {members : List (Units × JsonTree Literal)} {parsed : List (Units × PyValue)}

/-- A faithful literal is written as one of the same value. -/
theorem Faithful.written {l : Literal} (h : Faithful l) :
    lexemeOf (numberOf l) = .literal (literalOf (numberOf l)) ∧
      (literalOf (numberOf l)).value = l.value := by
  unfold literalOf
  by_cases hint : l.isInteger = true
  · rw [numberOf, if_pos hint]
    exact ⟨rfl, (Literal.value_ofInt l.integer).trans (Literal.value_of_isInteger hint).symm⟩
  · rw [numberOf, if_neg hint]
    obtain ⟨l', hrepr, hvalue⟩ := h.resolve_left hint
    rw [lexemeOf, hrepr]
    exact ⟨rfl, hvalue⟩

/-- Only a faithful literal is. -/
theorem faithful_of_written {l l' : Literal} (hlexeme : lexemeOf (numberOf l) = .literal l')
    (hvalue : l'.value = l.value) : Faithful l := by
  by_cases hint : l.isInteger = true
  · exact .inl hint
  · rw [numberOf, if_neg hint] at hlexeme
    exact .inr ⟨l', hlexeme, hvalue⟩

theorem child_withUsage (hnodup : (parsed.map Prod.fst).Nodup) (k : Units) :
    (withUsage parsed).child (.member k) =
      if k = streamOptions then some (.obj (mergedOptions parsed)) else lastValue k parsed :=
  lastValue_assignEntry hnodup k streamOptions _

/-- Beside the options nothing changes. -/
theorem view_withUsage_rest (hnodup : (parsed.map Prod.fst).Nodup) {s : JsonTree.Step}
    (hs : s ≠ optionsStep) (p : List JsonTree.Step) :
    (withUsage parsed).view (s :: p) = (JsonTree.obj parsed).view (s :: p) := by
  cases s with
  | item i => rfl
  | member k =>
      have hk : k ≠ streamOptions := fun h => hs (congrArg JsonTree.Step.member h)
      rw [JsonTree.view, child_withUsage hnodup, if_neg hk]
      rfl

/-- The options are the merged ones. -/
theorem view_withUsage_options (hnodup : (parsed.map Prod.fst).Nodup)
    (p : List JsonTree.Step) :
    (withUsage parsed).view (optionsStep :: p) = (JsonTree.obj (mergedOptions parsed)).view p := by
  rw [JsonTree.view, optionsStep, child_withUsage hnodup, if_pos rfl]
  rfl

/-- The options of a value: none, `null`, or a dict. -/
def Replaceable (parsed : List (Units × PyValue)) : Prop :=
  ∀ v, lastValue streamOptions parsed = some v →
    v = .null ∨ ∃ opts, v = .obj opts ∧ (opts.map Prod.fst).Nodup

/-- The merged options have the usage, and what the options had. -/
theorem child_mergedOptions (hreplaceable : Replaceable parsed) (s : JsonTree.Step) :
    (JsonTree.obj (mergedOptions parsed)).child s =
      if s = usageStep then some (.bool true)
      else (lastValue streamOptions parsed).bind fun v => v.child s := by
  cases s with
  | item i =>
      rw [if_neg (by simp [usageStep])]
      cases hopts : lastValue streamOptions parsed with
      | none => rfl
      | some v =>
          rcases hreplaceable v hopts with rfl | ⟨opts, rfl, -⟩
          · rfl
          · rfl
  | member k =>
      have hstep : JsonTree.Step.member k = usageStep ↔ k = includeUsage := by
        simp [usageStep]
      have hnil : lastValue k (assignEntry includeUsage (JsonTree.bool true : PyValue) []) =
          if k = includeUsage then some (.bool true) else none :=
        lastValue_assignEntry (l := []) List.nodup_nil k includeUsage _
      simp only [hstep]
      unfold mergedOptions
      cases hopts : lastValue streamOptions parsed with
      | none => exact hnil
      | some v =>
          rcases hreplaceable v hopts with rfl | ⟨opts, rfl, hdistinct⟩
          · exact hnil
          · exact lastValue_assignEntry hdistinct k includeUsage _

theorem nodup_mergedOptions (hreplaceable : Replaceable parsed) :
    ((mergedOptions parsed).map Prod.fst).Nodup := by
  unfold mergedOptions
  refine nodup_assignEntry ?_
  cases hopts : lastValue streamOptions parsed with
  | none => exact List.nodup_nil
  | some v =>
      rcases hreplaceable v hopts with rfl | ⟨opts, rfl, hdistinct⟩
      · exact List.nodup_nil
      · exact hdistinct

/-- The merged options are as deep as the options, and one deep where there are none. -/
theorem depth_mergedOptions_le (hreplaceable : Replaceable parsed)
    (hchooses : choosesUsage parsed = false) {n : Nat} :
    (JsonTree.obj (mergedOptions parsed)).depth ≤ n + 1 ↔
      ∀ v, lastValue streamOptions parsed = some v → v.depth ≤ n + 1 := by
  rw [JsonTree.depth_obj_le (nodup_mergedOptions hreplaceable)]
  have hchild := fun k => child_mergedOptions hreplaceable (.member k)
  constructor
  · intro hall v hv
    rcases hreplaceable v hv with rfl | ⟨opts, rfl, hdistinct⟩
    · exact Nat.zero_le _
    · refine (JsonTree.depth_obj_le hdistinct).mpr fun k w hw => hall k w ?_
      have hk : JsonTree.Step.member k ≠ usageStep := by
        rintro ⟨⟩
        rw [choosesUsage, hv] at hchooses
        simp only [hw] at hchooses
        cases hchooses
      have hsame := hchild k
      rw [if_neg hk, hv] at hsame
      exact hsame.trans hw
  · intro hall k w hw
    have hsame := hchild k
    by_cases hk : JsonTree.Step.member k = usageStep
    · rw [if_pos hk] at hsame
      cases hw.symm.trans hsame
      exact Nat.zero_le _
    · rw [if_neg hk] at hsame
      obtain ⟨v, hv, hvalue⟩ := Option.bind_eq_some_iff.mp (hsame.symm.trans hw)
      rcases hreplaceable v hv with rfl | ⟨opts, rfl, hdistinct⟩
      · cases hvalue
      · exact (JsonTree.depth_obj_le hdistinct).mp (hall _ hv) k w hvalue

/-- The value that is written is as deep as the one that was read, and at least two. -/
theorem depth_withUsage_le (hnodup : (parsed.map Prod.fst).Nodup)
    (hreplaceable : Replaceable parsed) (hchooses : choosesUsage parsed = false) {n : Nat} :
    (withUsage parsed).depth ≤ n ↔ max 2 (JsonTree.obj parsed).depth ≤ n := by
  match n with
  | 0 => simp [withUsage, JsonTree.depth]
  | 1 =>
      refine iff_of_false (fun h => ?_) fun h => ?_
      · have hoptions := (JsonTree.depth_obj_le (nodup_assignEntry hnodup)).mp h streamOptions _
          ((lastValue_assignEntry hnodup _ _ _).trans (if_pos rfl))
        rw [JsonTree.depth] at hoptions
        omega
      · omega
  | n + 2 =>
      rw [Nat.max_le, and_iff_right (by omega), withUsage,
        JsonTree.depth_obj_le (nodup_assignEntry hnodup), JsonTree.depth_obj_le hnodup]
      simp only [lastValue_assignEntry hnodup]
      constructor
      · intro hall k v hv
        by_cases hk : k = streamOptions
        · subst hk
          exact (depth_mergedOptions_le hreplaceable hchooses).mp (hall _ _ (if_pos rfl)) v hv
        · exact hall k v ((if_neg hk).trans hv)
      · intro hall k v hv
        by_cases hk : k = streamOptions
        · rw [if_pos hk] at hv
          cases hv
          exact (depth_mergedOptions_le hreplaceable hchooses).mpr fun v hv => hall _ v hv
        · rw [if_neg hk] at hv
          exact hall k v hv

/-- The numbers of the new value are numbers of the old one. -/
theorem mem_nums_withUsage {x : PyNumber} (h : x ∈ (withUsage parsed).nums) :
    x ∈ (JsonTree.obj parsed).nums := by
  simp only [withUsage, JsonTree.nums, JsonTree.numsMembers_eq, List.mem_flatMap] at h ⊢
  obtain ⟨e, he, hx⟩ := h
  rcases mem_assignEntry he with rfl | he
  · simp only [JsonTree.nums, JsonTree.numsMembers_eq, List.mem_flatMap] at hx
    obtain ⟨e', he', hx⟩ := hx
    rcases mem_assignEntry he' with rfl | he'
    · cases hx
    · split at he'
      · next opts hopts =>
          refine ⟨_, mem_of_lastValue hopts, ?_⟩
          simp only [JsonTree.nums, JsonTree.numsMembers_eq, List.mem_flatMap]
          exact ⟨e', he', hx⟩
      · cases he'
  · exact ⟨e, he, hx⟩

/-- A shape that is written as another one shows the same, if its number is written
faithfully. -/
theorem shape_of_written {a b : JsonTree.Shape Literal}
    (hmap : a.map Lexeme.literal = (b.map numberOf).map lexemeOf)
    (hfaithful : ∀ l, b = .num l → Faithful l) : a.map Literal.value = b.map Literal.value := by
  cases b with
  | num l =>
      obtain ⟨hwritten, hvalue⟩ := (hfaithful l rfl).written
      simp only [JsonTree.Shape.map, hwritten] at hmap ⊢
      cases a with
      | num l' =>
          simp only [JsonTree.Shape.num.injEq, Lexeme.literal.injEq] at hmap ⊢
          rw [hmap, hvalue]
      | _ => cases hmap
  | _ => cases a <;> simp_all [JsonTree.Shape.map]

/-- A tree that is written as a value says at a path what the body says there, if the value
has there what the body has and its numbers are written faithfully. -/
theorem tells_of_written {t out : JsonTree Literal} {v : PyValue} {p : List JsonTree.Step}
    (hout : out.map Lexeme.literal = v.map lexemeOf)
    (hview : v.view p = (t.view p).map (.map numberOf))
    (hfaithful : ∀ l ∈ t.resolve.nums, Faithful l) : tells out p = tells t p := by
  have hsame := congrArg (fun u => u.view p) hout
  simp only [JsonTree.view_map, hview] at hsame
  unfold tells
  cases ht : t.view p with
  | none =>
      rw [ht, Option.map_none, Option.map_none] at hsame
      rw [Option.map_eq_none_iff.mp hsame]
  | some shape =>
      rw [ht, Option.map_some, Option.map_some] at hsame
      obtain ⟨shape', hshape', hmap⟩ := Option.map_eq_some_iff.mp hsame
      rw [hshape', Option.map_some, Option.map_some, shape_of_written hmap]
      rintro l rfl
      exact hfaithful l (JsonTree.mem_nums_resolve.mpr ⟨p, ht⟩)

/-- And its number is written faithfully if it says there what the body says. -/
theorem faithful_of_tells {t out : JsonTree Literal} {v : PyValue} {p : List JsonTree.Step}
    {l : Literal} (hout : out.map Lexeme.literal = v.map lexemeOf)
    (hview : v.view p = (t.view p).map (.map numberOf)) (ht : t.view p = some (.num l))
    (htells : tells out p = tells t p) : Faithful l := by
  have hsame := congrArg (fun u => u.view p) hout
  simp only [JsonTree.view_map, hview, ht, Option.map_some, JsonTree.Shape.map] at hsame
  obtain ⟨shape', hshape', hmap⟩ := Option.map_eq_some_iff.mp hsame
  cases shape' with
  | num l' =>
      rw [tells, tells, hshape', ht] at htells
      simp only [JsonTree.Shape.map, Option.map_some, Option.some.injEq,
        JsonTree.Shape.num.injEq] at hmap htells
      exact faithful_of_written hmap.symm htells
  | _ => cases hmap

end Written

/-! ## When a body is preserved -/

/-- The value that a body is written anew as. -/
def rewritten (t : JsonTree Literal) : PyValue :=
  match loaded t with
  | .obj parsed => withUsage parsed
  | v => v

/-- The options of a body leave room for `include_usage`. -/
def RoomForUsage (t : JsonTree Literal) : Prop :=
  tells t [optionsStep] = none ∨ tells t [optionsStep] = some .null ∨
    tells t [optionsStep] = some .obj

theorem planRequest_untouched {loads : LoadsRequest} {dumps : DumpsRequest} {raw : Bytes}
    {t : JsonTree Literal} (hloads : loads raw = .ok (loaded t)) (hnot : ¬ Injects t) :
    ∃ plan, planRequest loads dumps raw = .ok plan ∧ plan.injectedUsage = false ∧
      plan.body = raw := by
  unfold planRequest
  rw [hloads]
  cases t with
  | obj members =>
      obtain ⟨parsed, hparsed, -, hlast⟩ := loaded_obj members
      rw [injects_iff hlast, not_and, Bool.not_eq_false] at hnot
      rw [hparsed]
      simp only
      cases hstreams : streams parsed with
      | false => exact ⟨_, rfl, rfl, rfl⟩
      | true =>
          rw [hnot hstreams]
          exact ⟨_, rfl, rfl, rfl⟩
  | _ => exact ⟨_, rfl, rfl, rfl⟩

theorem planRequest_injected {loads : LoadsRequest} {raw : Bytes} {t : JsonTree Literal}
    (dumps : DumpsRequest) (hloads : loads raw = .ok (loaded t)) (hinjects : Injects t) :
    ∃ model, planRequest loads dumps raw =
      match dumps (rewritten t) with
      | .error e => .error e
      | .ok body => .ok ⟨body, model, true, true⟩ := by
  unfold planRequest rewritten
  rw [hloads]
  cases t with
  | obj members =>
      obtain ⟨parsed, hparsed, -, hlast⟩ := loaded_obj members
      obtain ⟨hstreams, hchooses⟩ := (injects_iff hlast).mp hinjects
      rw [hparsed]
      simp only [hstreams, hchooses]
      exact ⟨_, rfl⟩
  | _ => exact hinjects.elim

/-- Room for the usage is a dict, or nothing, where the options are. -/
theorem replaceable_of_room {members : List (Units × JsonTree Literal)}
    {parsed : List (Units × PyValue)}
    (hlast : ∀ k, lastValue k parsed = (lastValue k members).map loaded)
    (hroom : RoomForUsage (.obj members)) : Replaceable parsed := by
  intro v hv
  rw [hlast] at hv
  obtain ⟨u, hu, rfl⟩ := Option.map_eq_some_iff.mp hv
  have htells : tells (.obj members) [optionsStep] = some (u.shape.map Literal.value) := by
    rw [tells, JsonTree.view]
    change ((lastValue streamOptions members).bind _).map _ = _
    rw [hu]
    rfl
  rw [RoomForUsage, htells] at hroom
  rcases hroom with hnone | hnull | hobj
  · cases hnone
  · cases u with
    | null => exact .inl rfl
    | _ => cases hnull
  · cases u with
    | obj members' =>
        obtain ⟨parsed', hparsed', hnodup', -⟩ := loaded_obj members'
        exact .inr ⟨parsed', hparsed', hnodup'⟩
    | _ => cases hobj

/-- The views of the value that is written. -/
structure Rewrites (t : JsonTree Literal) (v : PyValue) : Prop where
  top : v.view [] = (t.view []).map (.map numberOf)
  usage : v.view [optionsStep, usageStep] = some (.bool true)
  kept : ∀ s p, s ≠ usageStep →
    v.view (optionsStep :: s :: p) = (t.view (optionsStep :: s :: p)).map (.map numberOf)
  rest : ∀ s p, s ≠ optionsStep → v.view (s :: p) = (t.view (s :: p)).map (.map numberOf)
  nums : ∀ x ∈ v.nums, ∃ l ∈ t.resolve.nums, x = numberOf l

theorem rewrites_rewritten {t : JsonTree Literal} (hinjects : Injects t)
    (hroom : RoomForUsage t) : Rewrites t (rewritten t) := by
  cases t with
  | obj members =>
      obtain ⟨parsed, hparsed, hnodup, hlast⟩ := loaded_obj members
      have hreplaceable := replaceable_of_room hlast hroom
      have hview := view_loaded (.obj members)
      rw [hparsed] at hview
      rw [rewritten, hparsed]
      refine ⟨rfl, ?_, ?_, ?_, ?_⟩
      · rw [view_withUsage_options hnodup, JsonTree.view, child_mergedOptions hreplaceable,
          if_pos rfl]
        rfl
      · intro s p hs
        rw [← hview, view_withUsage_options hnodup, JsonTree.view,
          child_mergedOptions hreplaceable, if_neg hs, JsonTree.view]
        change _ = (lastValue streamOptions parsed).bind fun u => u.view (s :: p)
        rw [Option.bind_assoc]
        rfl
      · intro s p hs
        rw [← hview, view_withUsage_rest hnodup hs]
      · intro x hx
        have hmem := mem_nums_withUsage hx
        rw [← hparsed] at hmem
        exact mem_nums_loaded hmem
  | _ => exact hinjects.elim

/-- How deep the body that is written anew is. -/
theorem depth_rewritten_le {t : JsonTree Literal} (hinjects : Injects t) (hroom : RoomForUsage t)
    {n : Nat} : (rewritten t).depth ≤ n ↔ max 2 t.resolve.depth ≤ n := by
  cases t with
  | obj members =>
      obtain ⟨parsed, hparsed, hnodup, hlast⟩ := loaded_obj members
      have hdepth : (JsonTree.obj parsed).depth = (JsonTree.obj members).resolve.depth := by
        rw [← hparsed, loaded, JsonTree.resolve_map, JsonTree.depth_map]
      rw [rewritten, hparsed, ← hdepth]
      exact depth_withUsage_le hnodup (replaceable_of_room hlast hroom)
        ((injects_iff hlast).mp hinjects).2
  | _ => exact hinjects.elim

/-- A value whose numbers are written faithfully is written as JSON. -/
theorem written_of_faithful {t : JsonTree Literal} {v : PyValue} (hrewrites : Rewrites t v)
    (hfaithful : ∀ l ∈ t.resolve.nums, Faithful l) :
    (v.map literalOf).map Lexeme.literal = v.map lexemeOf := by
  refine map_literalOf fun x hx => ?_
  obtain ⟨l, hl, rfl⟩ := hrewrites.nums x hx
  exact (hfaithful l hl).written.1

/-- The written body asks for the usage and says otherwise what the body says. -/
theorem asksForUsage_of_rewrites {t out : JsonTree Literal} {v : PyValue}
    (hrewrites : Rewrites t v) (hroom : RoomForUsage t)
    (hout : out.map Lexeme.literal = v.map lexemeOf)
    (hfaithful : ∀ l ∈ t.resolve.nums, Faithful l) : AsksForUsage t out := by
  refine ⟨?_, hroom, ?_, ?_, ?_⟩
  · have hsame := congrArg (fun u => u.view [optionsStep, usageStep]) hout
    simp only [JsonTree.view_map, hrewrites.usage, Option.map_some, JsonTree.Shape.map] at hsame
    obtain ⟨shape, hshape, hmap⟩ := Option.map_eq_some_iff.mp hsame
    rw [tells, hshape]
    cases shape with
    | bool b =>
        cases hmap
        rfl
    | _ => cases hmap
  · exact fun s p hs => tells_of_written hout (hrewrites.kept s p hs) hfaithful
  · exact tells_of_written hout hrewrites.top hfaithful
  · exact fun s p hs => tells_of_written hout (hrewrites.rest s p hs) hfaithful

/-- If it does, every number of the body was written faithfully. -/
theorem faithful_of_asksForUsage {t out : JsonTree Literal} {v : PyValue} (hinjects : Injects t)
    (hrewrites : Rewrites t v) (hout : out.map Lexeme.literal = v.map lexemeOf)
    (hasks : AsksForUsage t out) : ∀ l ∈ t.resolve.nums, Faithful l := by
  intro l hl
  obtain ⟨p, hp⟩ := JsonTree.mem_nums_resolve.mp hl
  cases t with
  | obj members =>
      cases p with
      | nil => cases hp
      | cons s p =>
          by_cases hs : s = optionsStep
          · subst hs
            cases p with
            | nil =>
                -- the options are no number
                rcases hasks.options with h | h | h <;> rw [tells, hp] at h <;> cases h
            | cons s p =>
                by_cases hs : s = usageStep
                · subst hs
                  -- there was no `include_usage`
                  have hnone := JsonTree.view_append_none p hinjects.2
                  cases hnone.symm.trans hp
                · exact faithful_of_tells hout (hrewrites.kept s p hs) hp (hasks.kept s p hs)
          · exact faithful_of_tells hout (hrewrites.rest s p hs) hp (hasks.rest s p hs)
  | _ => exact hinjects.elim

theorem not_preserves_of_raises {limits : Limits} {foreign : LoadsRequest} {body : JsonBody}
    {e : LoadError} (huncaught : e.caught = false)
    (hloads : loadsJson limits foreign body.bytes = .error e) :
    ¬ Preserves limits foreign body := by
  rintro ⟨plan, hplan, -⟩
  rw [planRequest, hloads] at hplan
  simp only [huncaught] at hplan
  cases hplan

/-- What a body that is written anew has to be like. -/
theorem conditions_of_preserves {limits : Limits} {foreign : LoadsRequest} {body : JsonBody}
    (h : Preserves limits foreign body) (hinjects : Injects body.tree) :
    RoomForUsage body.tree ∧ max 2 body.tree.resolve.depth ≤ limits.writeDepth ∧
      ∀ l ∈ body.tree.resolve.nums, Faithful l := by
  rcases loadsJson_bytes limits foreign body with ⟨-, e, huncaught, hloads⟩ | ⟨-, hloads⟩
  · exact absurd h (not_preserves_of_raises huncaught hloads)
  · obtain ⟨model, hplan⟩ := planRequest_injected (dumpsJson limits) hloads hinjects
    unfold Preserves at h
    rw [hplan] at h
    by_cases hdepth : limits.writeDepth < (rewritten body.tree).depth
    · rw [dumpsJson, if_pos hdepth] at h
      obtain ⟨plan, h, -⟩ := h
      cases h
    · rw [dumpsJson, if_neg hdepth] at h
      obtain ⟨plan, hplan', -, -, hbody⟩ := h
      cases hplan'
      obtain ⟨out, hbytes, hasks⟩ := hbody rfl
      have hrewrites := rewrites_rewritten hinjects hasks.options
      -- the bytes are JSON for one value only
      have hout : out.tree.map Lexeme.literal = (rewritten body.tree).map lexemeOf := by
        have hparse := parseJson_text out
        rw [← hbytes, decodeUtf8_encodeUtf8, Option.bind_some, parseJson_write] at hparse
        exact (Option.some.inj hparse).symm
      exact ⟨hasks.options, (depth_rewritten_le hinjects hasks.options).mp (by omega),
        faithful_of_asksForUsage hinjects hrewrites hout hasks⟩

/-- A body of JSON comes to no harm exactly if it is within the limits and, where the usage
is asked for, its `stream_options` have room, it is nested no deeper than can be written, and
every number with a point or an exponent is what its double is written as. -/
theorem body_preserved_iff (limits : Limits) (foreign : LoadsRequest) (body : JsonBody) :
    Preserves limits foreign body ↔
      limits.Reads body.tree ∧
        (Injects body.tree → RoomForUsage body.tree ∧
          max 2 body.tree.resolve.depth ≤ limits.writeDepth ∧
          ∀ l ∈ body.tree.resolve.nums, Faithful l) := by
  rcases loadsJson_bytes limits foreign body with ⟨hnot, e, huncaught, hloads⟩ | ⟨hreads, hloads⟩
  · exact iff_of_false (not_preserves_of_raises huncaught hloads) fun h => hnot h.1
  · refine ⟨fun h => ⟨hreads, conditions_of_preserves h⟩, ?_⟩
    rintro ⟨-, h⟩
    by_cases hinjects : Injects body.tree
    · obtain ⟨hroom, hdepth, hfaithful⟩ := h hinjects
      obtain ⟨model, hplan⟩ := planRequest_injected (dumpsJson limits) hloads hinjects
      have hrewrites := rewrites_rewritten hinjects hroom
      have hwritten := written_of_faithful hrewrites hfaithful
      have hwritable := (depth_rewritten_le hinjects hroom).mpr hdepth
      rw [dumpsJson, if_neg (by omega)] at hplan
      refine ⟨_, hplan, iff_of_true rfl hinjects, (fun h => nomatch h), fun _ => ?_⟩
      exact ⟨.ofTree ((rewritten body.tree).map literalOf),
        congrArg (fun t => encodeUtf8 t.write) hwritten.symm,
        asksForUsage_of_rewrites hrewrites hroom hwritten hfaithful⟩
    · obtain ⟨plan, hplan, hinjected, hbody⟩ :=
        @planRequest_untouched _ (dumpsJson limits) _ _ hloads hinjects
      refine ⟨plan, hplan, ?_, fun _ => hbody, ?_⟩
      · rw [hinjected]
        exact iff_of_false (by decide) hinjects
      · intro h
        rw [hinjected] at h
        cases h

/-- A body of JSON whose `stream_options` have room is planned exactly if it is within the
limits and, where the usage is asked for, nested no deeper than can be written. -/
theorem plannable_iff (limits : Limits) (foreign : LoadsRequest) (body : JsonBody)
    (hroom : RoomForUsage body.tree) :
    Plannable (loadsJson limits foreign) (dumpsJson limits) body.bytes ↔
      limits.Reads body.tree ∧
        (Injects body.tree → max 2 body.tree.resolve.depth ≤ limits.writeDepth) := by
  have hreturns := planRequest_spec (loadsJson limits foreign) (dumpsJson limits) body.bytes
  rcases loadsJson_bytes limits foreign body with ⟨hnot, e, huncaught, hloads⟩ | ⟨hreads, hloads⟩
  · refine iff_of_false (fun h => ?_) fun h => hnot h.1
    rw [Plannable, hloads] at h
    exact Bool.false_ne_true (huncaught.symm.trans h)
  · by_cases hinjects : Injects body.tree
    · obtain ⟨model, hplan⟩ := planRequest_injected (dumpsJson limits) hloads hinjects
      rw [hplan, dumpsJson] at hreturns
      rw [← depth_rewritten_le hinjects hroom]
      by_cases hdeep : limits.writeDepth < (rewritten body.tree).depth
      · rw [if_pos hdeep] at hreturns
        rcases hreturns with ⟨hnot, -⟩ | ⟨-, p, hp, -⟩
        · exact iff_of_false hnot fun h => absurd (h.2 hinjects) (by omega)
        · cases hp
      · rw [if_neg hdeep] at hreturns
        rcases hreturns with ⟨-, e, he⟩ | ⟨hplannable, -⟩
        · cases he
        · exact iff_of_true hplannable ⟨hreads, fun _ => by omega⟩
    · obtain ⟨plan, hplan, -⟩ :=
        @planRequest_untouched _ (dumpsJson limits) _ _ hloads hinjects
      rcases hreturns with ⟨-, e, he⟩ | ⟨hplannable, -⟩
      · cases hplan.symm.trans he
      · exact iff_of_true hplannable ⟨hreads, fun h => absurd h hinjects⟩

/-- `1e400`. -/
def hugeLiteral : Literal where
  negative := false
  whole := [1]
  fraction := []
  exponent := some (false, [4, 0, 0])
  canonical := .inr ⟨1, [], rfl, by decide⟩
  filled := fun _ h => by
    cases h
    exact List.cons_ne_nil _ _

theorem hugeLiteral_not_faithful : ¬ Faithful hugeLiteral := by
  have hrepr : (Double.ofLiteral hugeLiteral).repr = .infinity false := by decide +kernel
  rintro (hint | ⟨l, hl, -⟩)
  · cases hint
  · cases hrepr.symm.trans hl

/-- `{"stream": true, "x": 1e+400}` -/
def hugeBody : JsonBody :=
  .ofTree (.obj [(streamKey, .bool true), (unitsOf "x", .num hugeLiteral)])

/-- It is written with `Infinity`. -/
theorem hugeBody_not_preserved :
    ¬ Preserves ⟨1000, 1000, 4300⟩ (fun _ => .error .jsonDecode) hugeBody := by
  intro h
  have hinjects : Injects hugeBody.tree := ⟨⟨.bool true, rfl, rfl⟩, rfl⟩
  have hmem : hugeLiteral ∈ hugeBody.tree.resolve.nums :=
    JsonTree.mem_nums_resolve.mpr ⟨[.member (unitsOf "x")], rfl⟩
  exact hugeLiteral_not_faithful ((conditions_of_preserves h hinjects).2.2 _ hmem)

end Repercep.Metering
