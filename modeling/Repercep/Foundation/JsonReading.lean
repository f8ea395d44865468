import Repercep.Foundation.JsonText
set_option autoImplicit false

/-!
# JSON texts: the reader and the writer

The reader finds the value that a text spells, and what the writer writes spells the value
it is given.
-/

namespace Repercep.Foundation

/-! ## Words -/

theorem digit?_digitChar (d : Digit) : digit? (digitChar d) = some d := by
  revert d
  decide

theorem isWordChar_digitChar (d : Digit) : isWordChar (digitChar d) = true := by
  revert d
  decide

theorem hexDigit?_hexChar (d : Fin 16) : hexDigit? (hexChar d) = some d := by
  revert d
  decide

/-- The digits of a text that goes on otherwise. -/
theorem spanDigits_append (ds : List Digit) {rest : List Char}
    (hrest : ∀ c ∈ rest.head?, digit? c = none) :
    spanDigits (ds.map digitChar ++ rest) = (ds, rest) := by
  induction ds with
  | nil =>
      cases rest with
      | nil => rfl
      | cons c rest => simp [spanDigits, hrest c rfl]
  | cons d ds ih =>
      rw [List.map_cons, List.cons_append, spanDigits, digit?_digitChar, ih]

theorem spanDigits_map (ds : List Digit) : spanDigits (ds.map digitChar) = (ds, []) := by
  simpa using @spanDigits_append ds [] (fun _ h => nomatch h)

theorem spanMinus_digit (d : Digit) (cs : List Char) :
    spanMinus (digitChar d :: cs) = (false, digitChar d :: cs) := by
  have hne : digitChar d ≠ '-' := by
    revert d
    decide
  unfold spanMinus
  split
  · next h => exact absurd (List.cons.inj h).1 hne
  · rfl

theorem spanSign_digit (d : Digit) (cs : List Char) :
    spanSign (digitChar d :: cs) = (false, digitChar d :: cs) := by
  have hminus : digitChar d ≠ '-' := by
    revert d
    decide
  have hplus : digitChar d ≠ '+' := by
    revert d
    decide
  unfold spanSign
  split
  · next h => exact absurd (List.cons.inj h).1 hminus
  · next h => exact absurd (List.cons.inj h).1 hplus
  · rfl

/-- An exponent begins with its marker. -/
theorem ExponentText.head {e : Option (Bool × List Digit)} {text : List Char}
    (h : ExponentText e text) : ∀ c ∈ text.head?, c = 'e' ∨ c = 'E' := by
  cases h with
  | absent => exact fun _ hc => nomatch hc
  | unsigned hmarker digits =>
      intro c hc
      cases hc
      exact hmarker
  | plus hmarker digits =>
      intro c hc
      cases hc
      exact hmarker
  | minus hmarker digits =>
      intro c hc
      cases hc
      exact hmarker

theorem exponent?_text {e : Option (Bool × List Digit)} {text : List Char}
    (h : ExponentText e text) (hfilled : ∀ d ∈ e, d.2 ≠ []) : exponent? text = some e := by
  cases h with
  | absent => rfl
  | unsigned hmarker digits =>
      cases digits with
      | nil => exact absurd rfl (hfilled _ rfl)
      | cons d ds =>
          rw [exponent?, if_pos hmarker, List.map_cons, spanSign_digit, ← List.map_cons,
            spanDigits_map]
  | plus hmarker digits =>
      cases digits with
      | nil => exact absurd rfl (hfilled _ rfl)
      | cons d ds =>
          rw [exponent?, if_pos hmarker]
          simp only [spanSign]
          rw [spanDigits_map]
  | minus hmarker digits =>
      cases digits with
      | nil => exact absurd rfl (hfilled _ rfl)
      | cons d ds =>
          rw [exponent?, if_pos hmarker]
          simp only [spanSign]
          rw [spanDigits_map]

theorem fraction?_text (fraction : List Digit) {text : List Char}
    (hhead : ∀ c ∈ text.head?, c = 'e' ∨ c = 'E') :
    fraction? ((if fraction = [] then [] else '.' :: fraction.map digitChar) ++ text) =
      some (fraction, text) := by
  cases fraction with
  | nil =>
      rw [if_pos rfl, List.nil_append]
      unfold fraction?
      split
      · next c cs =>
          rcases hhead '.' rfl with h | h <;> cases h
      · rfl
  | cons d ds =>
      have hdigits : ∀ c ∈ text.head?, digit? c = none := by
        intro c hc
        rcases hhead c hc with rfl | rfl <;> rfl
      rw [if_neg (List.cons_ne_nil d ds), List.cons_append, fraction?,
        spanDigits_append (d :: ds) hdigits]

/-- The literal of a number. -/
theorem literal?_text (l : Literal) {exponent : List Char}
    (hexponent : ExponentText l.exponent exponent) :
    literal? (l.mantissaText ++ exponent) = some l := by
  obtain ⟨negative, whole, fraction, e, hcanonical, hfilled⟩ := l
  have hhead := hexponent.head
  have hfraction := fraction?_text fraction hhead
  have hstops : ∀ c ∈ ((if fraction = [] then [] else '.' :: fraction.map digitChar) ++
      exponent).head?, digit? c = none := by
    intro c hc
    cases fraction with
    | nil => rcases hhead c hc with rfl | rfl <;> rfl
    | cons d ds =>
        cases hc
        rfl
  have hwhole := spanDigits_append whole hstops
  have hsign : spanMinus ((if negative then ['-'] else []) ++ (whole.map digitChar ++
      ((if fraction = [] then [] else '.' :: fraction.map digitChar) ++ exponent))) =
      (negative, whole.map digitChar ++
        ((if fraction = [] then [] else '.' :: fraction.map digitChar) ++ exponent)) := by
    cases negative with
    | true => rfl
    | false =>
        cases whole with
        | nil => exact absurd rfl hcanonical.ne_nil
        | cons d ds => exact spanMinus_digit d _
  have hexp := exponent?_text hexponent hfilled
  unfold Literal.mantissaText literal?
  simp only [List.append_assoc, hsign, hwhole, hfraction, hexp, dif_pos hcanonical,
    dif_pos hfilled]

/-- A name or a number is read as the token it spells. -/
theorem WordText.word? {t : JsonToken} {w : List Char} (h : WordText t w) :
    Foundation.word? w = some t := by
  cases h with
  | null => rfl
  | boolTrue => rfl
  | boolFalse => rfl
  | nan => rfl
  | infinity => rfl
  | negInfinity => rfl
  | literal l hexponent =>
      have hliteral := literal?_text l hexponent
      generalize l.mantissaText ++ _ = w at hliteral ⊢
      have hname : ∀ name, literal? name = none → w ≠ name := by
        rintro name hnone rfl
        cases hliteral.symm.trans hnone
      unfold Foundation.word?
      rw [if_neg (hname _ rfl), if_neg (hname _ rfl), if_neg (hname _ rfl), if_neg (hname _ rfl),
        if_neg (hname _ rfl), if_neg (hname _ rfl), hliteral]
      rfl

/-- A word has characters, and only word characters. -/
theorem WordText.chars {t : JsonToken} {w : List Char} (h : WordText t w) :
    w ≠ [] ∧ ∀ c ∈ w, isWordChar c = true := by
  cases h with
  | null => exact ⟨List.cons_ne_nil _ _, List.all_eq_true.mp rfl⟩
  | boolTrue => exact ⟨List.cons_ne_nil _ _, List.all_eq_true.mp rfl⟩
  | boolFalse => exact ⟨List.cons_ne_nil _ _, List.all_eq_true.mp rfl⟩
  | nan => exact ⟨List.cons_ne_nil _ _, List.all_eq_true.mp rfl⟩
  | infinity => exact ⟨List.cons_ne_nil _ _, List.all_eq_true.mp rfl⟩
  | negInfinity => exact ⟨List.cons_ne_nil _ _, List.all_eq_true.mp rfl⟩
  | @literal l exponent hexponent =>
      have hdigits : ∀ ds : List Digit, ∀ c ∈ ds.map digitChar, isWordChar c = true := by
        intro ds c hc
        obtain ⟨d, -, rfl⟩ := List.mem_map.mp hc
        exact isWordChar_digitChar d
      have hmantissa : ∀ c ∈ l.mantissaText, isWordChar c = true := by
        intro c hc
        unfold Literal.mantissaText at hc
        rcases List.mem_append.mp hc with hc | hc
        · rcases List.mem_append.mp hc with hc | hc
          · split at hc
            · cases List.mem_singleton.mp hc
              rfl
            · cases hc
          · exact hdigits _ c hc
        · split at hc
          · cases hc
          · rcases List.mem_cons.mp hc with rfl | hc
            · rfl
            · exact hdigits _ c hc
      have hexp : ∀ c ∈ exponent, isWordChar c = true := by
        have hmarker : ∀ c, c = 'e' ∨ c = 'E' → isWordChar c = true := by
          rintro c (rfl | rfl) <;> rfl
        have hsigned : ∀ sign (ds : List Digit) c, isWordChar sign = true →
            c ∈ sign :: ds.map digitChar → isWordChar c = true := by
          intro sign ds c hsign hc
          rcases List.mem_cons.mp hc with rfl | hc
          · exact hsign
          · exact hdigits ds c hc
        intro c hc
        generalize l.exponent = e at hexponent
        cases hexponent with
        | absent => cases hc
        | unsigned hm digits => exact hsigned _ digits c (hmarker _ hm) hc
        | plus hm digits =>
            rcases List.mem_cons.mp hc with rfl | hc
            · exact hmarker _ hm
            · exact hsigned '+' digits c rfl hc
        | minus hm digits =>
            rcases List.mem_cons.mp hc with rfl | hc
            · exact hmarker _ hm
            · exact hsigned '-' digits c rfl hc
      refine ⟨?_, ?_⟩
      · intro hnil
        have hwhole := (List.append_eq_nil_iff.mp hnil).1
        unfold Literal.mantissaText at hwhole
        have hmap := (List.append_eq_nil_iff.mp (List.append_eq_nil_iff.mp hwhole).1).2
        exact l.canonical.ne_nil (List.map_eq_nil_iff.mp hmap)
      · intro c hc
        exact (List.mem_append.mp hc).elim (hmantissa c) (hexp c)

/-! ## The scanner -/

theorem lex_eq (m : Lexing) (c : Char) (text : List Char) :
    lex m (c :: text) =
      (lexStep m c).bind fun p => (lex p.2 text).map fun tokens => p.1 ++ tokens := by
  cases m <;> rfl

theorem lex_cons {m m' : Lexing} {c : Char} {tokens : List JsonToken} (text : List Char)
    (hstep : lexStep m c = some (tokens, m')) :
    lex m (c :: text) = (lex m' text).map fun rest => tokens ++ rest := by
  rw [lex_eq, hstep, Option.bind_some]

/-- A step that ends no token. -/
theorem lex_cons_nil {m m' : Lexing} {c : Char} (text : List Char)
    (hstep : lexStep m c = some ([], m')) : lex m (c :: text) = lex m' text := by
  rw [lex_cons text hstep]
  cases lex m' text <;> rfl

theorem isWhitespace_of_structural {c : Char} {t : JsonToken} (h : structural? c = some t) :
    isWhitespace c = false := by
  unfold structural? at h
  split at h
  · subst c; rfl
  split at h
  · subst c; rfl
  split at h
  · subst c; rfl
  split at h
  · subst c; rfl
  split at h
  · subst c; rfl
  split at h
  · subst c; rfl
  · cases h

theorem lexStart_whitespace {c : Char} (h : isWhitespace c = true) :
    lexStart c = some ([], .between) := by
  rw [lexStart, if_pos h]

theorem lexStart_structural {c : Char} {t : JsonToken} (h : structural? c = some t) :
    lexStart c = some ([t], .between) := by
  rw [lexStart, if_neg (by rw [isWhitespace_of_structural h]; decide), h]

/-- A word character starts a word. -/
theorem lexStart_word {c : Char} (h : isWordChar c = true) :
    lexStart c = some ([], .word [c]) := by
  have hspace : isWhitespace c = false := by
    cases hspace : isWhitespace c with
    | false => rfl
    | true =>
        simp only [isWhitespace, Bool.decide_or, Bool.or_eq_true, decide_eq_true_eq] at hspace
        rcases hspace with rfl | rfl | rfl | rfl <;> cases h
  have hmark : structural? c = none := by
    unfold structural?
    split
    · subst c; cases h
    split
    · subst c; cases h
    split
    · subst c; cases h
    split
    · subst c; cases h
    split
    · subst c; cases h
    split
    · subst c; cases h
    · rfl
  have hquote : c ≠ '"' := by
    rintro rfl
    cases h
  rw [lexStart, if_neg (by rw [hspace]; decide), hmark]
  simp [hquote, h]

/-- The scanner goes through a word. -/
theorem lex_word_append (cs : List Char) {text : List Char} (hcs : ∀ c ∈ cs, isWordChar c = true) :
    ∀ w, lex (.word w) (cs ++ text) = lex (.word (w ++ cs)) text := by
  induction cs with
  | nil => intro w; rw [List.nil_append, List.append_nil]
  | cons c cs ih =>
      intro w
      have hstep : lexStep (.word w) c = some ([], .word (w ++ [c])) := by
        rw [lexStep, if_pos (hcs c List.mem_cons_self)]
      rw [List.cons_append, lex_cons_nil _ hstep,
        ih (fun d hd => hcs d (List.mem_cons_of_mem c hd)), List.append_assoc,
        List.singleton_append]

/-- A word ends where no word character follows. -/
theorem lex_word {t : JsonToken} {w text : List Char} (hword : word? w = some t)
    (hstops : Stops text) : lex (.word w) text = (lex .between text).map fun ts => t :: ts := by
  cases text with
  | nil => simp [lex, hword]
  | cons c text =>
      have hc : isWordChar c = false := hstops c rfl
      have hstep : lexStep (.word w) c = (lexStart c).map fun p => (t :: p.1, p.2) := by
        rw [lexStep, if_neg (by rw [hc]; decide), hword, Option.bind_some]
      cases hstart : lexStart c with
      | none =>
          have hbetween : lexStep .between c = none := hstart
          rw [lex_eq, lex_eq, hstep, hstart, hbetween]
          rfl
      | some p =>
          have hbetween : lexStep .between c = some (p.1, p.2) := hstart
          rw [hstart] at hstep
          rw [lex_cons text hstep, lex_cons text hbetween, Option.map_map]
          rfl

/-- The scanner goes through the body of a string. -/
theorem lex_string {s : Units} {body : List Char} (hbody : UnitsText s body) (text : List Char) :
    ∀ done, lex (.string done) (body ++ '"' :: text) =
      (lex .between text).map fun ts => .str (done ++ s) :: ts := by
  induction hbody with
  | nil =>
      intro done
      have hstep : lexStep (.string done) '"' = some ([.str done], .between) := rfl
      rw [List.nil_append, lex_cons text hstep, List.append_nil]
      rfl
  | @char c s body hcontrol hquote hbackslash hrest ih =>
      intro done
      have hstep : lexStep (.string done) c = some ([], .string (done ++ utf16 c)) := by
        rw [lexStep, if_neg hquote, if_neg hbackslash, if_neg (by omega)]
      rw [List.cons_append, lex_cons_nil _ hstep, ih, List.append_assoc]
  | @escape c u s body hescaped hrest ih =>
      intro done
      have hc : c ≠ 'u' := by
        rintro rfl
        cases hescaped
      have hback : lexStep (.string done) '\\' = some ([], .escape done) := rfl
      have hstep : lexStep (.escape done) c = some ([], .string (done ++ [u])) := by
        rw [lexStep, if_neg hc, hescaped]
        rfl
      rw [List.cons_append, List.cons_append, lex_cons_nil _ hback, lex_cons_nil _ hstep, ih,
        List.append_assoc, List.singleton_append]
  | @hex c₁ c₂ c₃ c₄ d₁ d₂ d₃ d₄ s body h₁ h₂ h₃ h₄ hrest ih =>
      intro done
      have hback : lexStep (.string done) '\\' = some ([], .escape done) := rfl
      have hu : lexStep (.escape done) 'u' = some ([], .hex done []) := rfl
      have hone : lexStep (.hex done []) c₁ = some ([], .hex done [d₁]) := by simp [lexStep, h₁]
      have htwo : lexStep (.hex done [d₁]) c₂ = some ([], .hex done [d₁, d₂]) := by
        simp [lexStep, h₂]
      have hthree : lexStep (.hex done [d₁, d₂]) c₃ = some ([], .hex done [d₁, d₂, d₃]) := by
        simp [lexStep, h₃]
      have hfour : lexStep (.hex done [d₁, d₂, d₃]) c₄ =
          some ([], .string (done ++ [hexUnit d₁ d₂ d₃ d₄])) := by
        simp [lexStep, h₄]
      simp only [List.cons_append]
      rw [lex_cons_nil _ hback, lex_cons_nil _ hu, lex_cons_nil _ hone, lex_cons_nil _ htwo,
        lex_cons_nil _ hthree, lex_cons_nil _ hfour, ih, List.append_assoc,
        List.singleton_append]

/-- The scanner finds the tokens that a text spells. -/
theorem lex_of_spells {tokens : List JsonToken} {text : List Char} (h : Spells tokens text) :
    lex .between text = some tokens := by
  induction h with
  | nil => rfl
  | @whitespace c tokens text hspace hrest ih =>
      have hstep : lexStep .between c = some ([], .between) := lexStart_whitespace hspace
      rw [lex_cons_nil text hstep, ih]
  | @structural c t tokens text hmark hrest ih =>
      have hstep : lexStep .between c = some ([t], .between) := lexStart_structural hmark
      rw [lex_cons text hstep, ih]
      rfl
  | @string s body tokens text hbody hrest ih =>
      have hstep : lexStep .between '"' = some ([], .string []) := rfl
      rw [lex_cons_nil _ hstep, lex_string hbody text [], ih]
      rfl
  | @word t w tokens text hword hstops hrest ih =>
      obtain ⟨hne, hchars⟩ := hword.chars
      cases w with
      | nil => exact absurd rfl hne
      | cons c cs =>
          have hstep : lexStep .between c = some ([], .word [c]) :=
            lexStart_word (hchars c List.mem_cons_self)
          rw [List.cons_append, lex_cons_nil _ hstep,
            lex_word_append cs (fun d hd => hchars d (List.mem_cons_of_mem c hd)),
            List.singleton_append, lex_word hword.word? hstops, ih]
          rfl

/-! ## The reader -/

theorem readAll_singleton (r : Reading) (t : JsonToken) : readAll r [t] = readStep r t := by
  rw [readAll]
  cases readStep r t <;> rfl

theorem readAll_append (tokens₁ tokens₂ : List JsonToken) :
    ∀ r, readAll r (tokens₁ ++ tokens₂) = (readAll r tokens₁).bind (readAll · tokens₂) := by
  induction tokens₁ with
  | nil => intro r; rfl
  | cons t tokens₁ ih =>
      intro r
      rw [List.cons_append, readAll, readAll]
      cases readStep r t with
      | none => rfl
      | some r' => exact ih r'

/-- Where the reader stands before the items or members that are left. -/
def Expecting.ofFirst (first : Bool) (atFirst : Expecting) : Expecting :=
  if first then atFirst else .next

/-- The reader takes the items that are left of an array. -/
theorem readAll_items {items : List (JsonTree Lexeme)}
    (hitems : ∀ t ∈ items, ∀ frames first,
      readAll (.running frames (.value first)) t.tokens = deliver t frames)
    (frames : List OpenValue) :
    ∀ first done, readAll (.running (.array done :: frames) (.ofFirst first (.value true)))
      (JsonTree.itemTokens first items ++ [.endArray]) = deliver (.arr (done ++ items)) frames := by
  induction items with
  | nil =>
      intro first done
      rw [JsonTree.itemTokens, List.nil_append, readAll_singleton, List.append_nil]
      cases first <;> rfl
  | cons t items ih =>
      intro first done
      have hrest := ih (fun u hu => hitems u (List.mem_cons_of_mem t hu)) false (done ++ [t])
      rw [List.append_assoc, List.singleton_append] at hrest
      have hcomma : readAll (.running (.array done :: frames) (.ofFirst first (.value true)))
          (if first then [] else [.comma]) =
            some (.running (.array done :: frames) (.value first)) := by
        cases first <;> rfl
      rw [JsonTree.itemTokens, List.append_assoc, List.append_assoc, readAll_append, hcomma,
        Option.bind_some, readAll_append, hitems t List.mem_cons_self, deliver, Option.bind_some]
      exact hrest

/-- The reader takes the members that are left of an object. -/
theorem readAll_members {members : List (Units × JsonTree Lexeme)}
    (hmembers : ∀ m ∈ members, ∀ frames first,
      readAll (.running frames (.value first)) m.2.tokens = deliver m.2 frames)
    (frames : List OpenValue) :
    ∀ first done, readAll (.running (.object done :: frames) (.ofFirst first (.name true)))
      (JsonTree.memberTokens first members ++ [.endObject]) =
        deliver (.obj (done ++ members)) frames := by
  induction members with
  | nil =>
      intro first done
      rw [JsonTree.memberTokens, List.nil_append, readAll_singleton, List.append_nil]
      cases first <;> rfl
  | cons m members ih =>
      intro first done
      obtain ⟨k, t⟩ := m
      have hrest := ih (fun u hu => hmembers u (List.mem_cons_of_mem (k, t) hu)) false
        (done ++ [(k, t)])
      rw [List.append_assoc, List.singleton_append] at hrest
      have hname : readAll (.running (.object done :: frames) (.ofFirst first (.name true)))
          ((if first then [] else [.comma]) ++ [.str k, .colon]) =
            some (.running (.member done k :: frames) (.value false)) := by
        cases first <;> rfl
      have hsplit : JsonTree.memberTokens first ((k, t) :: members) ++ [.endObject] =
          ((if first then [] else [.comma]) ++ [.str k, .colon]) ++
            (t.tokens ++ (JsonTree.memberTokens false members ++ [.endObject])) := by
        simp [JsonTree.memberTokens]
      rw [hsplit, readAll_append, hname, Option.bind_some, readAll_append,
        hmembers (k, t) List.mem_cons_self, deliver, Option.bind_some]
      exact hrest

/-- The reader delivers the value of the tokens it takes. -/
theorem readAll_tokens (t : JsonTree Lexeme) :
    ∀ frames first, readAll (.running frames (.value first)) t.tokens = deliver t frames := by
  induction t with
  | null => intro frames first; rw [JsonTree.tokens, readAll_singleton]; rfl
  | bool b => intro frames first; rw [JsonTree.tokens, readAll_singleton]; rfl
  | num x => intro frames first; rw [JsonTree.tokens, readAll_singleton]; rfl
  | str s => intro frames first; rw [JsonTree.tokens, readAll_singleton]; rfl
  | arr items ih =>
      intro frames first
      rw [JsonTree.tokens, readAll]
      exact readAll_items ih frames true []
  | obj members ih =>
      intro frames first
      rw [JsonTree.tokens, readAll]
      exact readAll_members ih frames true []

/-- The reader finds the value that a text spells. -/
theorem parseJson_of_spells {t : JsonTree Lexeme} {text : List Char}
    (h : Spells t.tokens text) : parseJson text = some t := by
  rw [parseJson, lex_of_spells h, Option.bind_some, readTokens, readAll_tokens]
  rfl

/-! ## The writer -/

theorem toNat_ofNat_of_lt {n : Nat} (h : n < 0xD800) : (Char.ofNat n).toNat = n := by
  have hvalid : n.isValidChar := .inl h
  rw [Char.ofNat, dif_pos hvalid]
  rfl

/-- A code unit written in a string is read as itself. -/
theorem unitsText_unitText (u : CodeUnit) {s : Units} {body : List Char}
    (hrest : UnitsText s body) : UnitsText (u :: s) (unitText u ++ body) := by
  have hescape : ∀ (n : Nat) (c : Char) (v : CodeUnit), u.val = n → escaped? c = some v →
      v.val = n → UnitsText (u :: s) (['\\', c] ++ body) := by
    intro n c v hn hescaped hv
    have huv : v = u := Fin.ext (hv.trans hn.symm)
    exact .escape c (huv ▸ hescaped) hrest
  unfold unitText
  split
  · next h => exact hescape _ '"' _ h rfl rfl
  split
  · next h => exact hescape _ '\\' _ h rfl rfl
  split
  · next h => exact hescape _ 'n' _ h rfl rfl
  split
  · next h => exact hescape _ 'r' _ h rfl rfl
  split
  · next h => exact hescape _ 't' _ h rfl rfl
  split
  · next h => exact hescape _ 'f' _ h rfl rfl
  split
  · next h => exact hescape _ 'b' _ h rfl rfl
  split
  · next hquote hbackslash _ _ _ _ _ hprintable =>
      have hcode : (Char.ofNat u.val).toNat = u.val := toNat_ofNat_of_lt (by omega)
      have hunits : utf16 (Char.ofNat u.val) = [u] := by
        rw [utf16, hcode, if_pos (by omega), Fin.ofNat_val_eq_self]
      rw [← List.singleton_append (x := u), ← hunits]
      refine .char _ (by omega) ?_ ?_ hrest
      · intro h
        exact hquote (hcode.symm.trans (congrArg Char.toNat h))
      · intro h
        exact hbackslash (hcode.symm.trans (congrArg Char.toNat h))
  · have hunit : hexUnit (Fin.ofNat 16 (u.val / 4096)) (Fin.ofNat 16 (u.val / 256))
        (Fin.ofNat 16 (u.val / 16)) (Fin.ofNat 16 u.val) = u := by
      apply Fin.ext
      have hlt := u.isLt
      simp only [hexUnit, Fin.ofNat]
      omega
    have hhex := UnitsText.hex (hexDigit?_hexChar (Fin.ofNat 16 (u.val / 4096)))
      (hexDigit?_hexChar (Fin.ofNat 16 (u.val / 256)))
      (hexDigit?_hexChar (Fin.ofNat 16 (u.val / 16))) (hexDigit?_hexChar (Fin.ofNat 16 u.val)) hrest
    rw [hunit] at hhex
    exact hhex

theorem unitsText_flatMap (s : Units) : UnitsText s (s.flatMap unitText) := by
  induction s with
  | nil => exact .nil
  | cons u s ih =>
      rw [List.flatMap_cons]
      exact unitsText_unitText u ih

theorem spells_stringText (s : Units) {tokens : List JsonToken} {text : List Char}
    (hrest : Spells tokens text) : Spells (.str s :: tokens) (stringText s ++ text) := by
  rw [stringText, List.cons_append, List.append_assoc, List.singleton_append]
  exact .string (unitsText_flatMap s) hrest

theorem wordText_text (x : Lexeme) : WordText (.num x) x.text := by
  cases x with
  | nan => exact .nan
  | infinity negative =>
      cases negative with
      | false => exact .infinity
      | true => exact .negInfinity
  | literal l =>
      refine .literal l ?_
      cases l.exponent with
      | none => exact .absent
      | some e =>
          obtain ⟨negative, digits⟩ := e
          cases negative with
          | false => exact .plus (.inl rfl) digits
          | true => exact .minus (.inl rfl) digits

/-- What follows a value that is written in an array or an object. -/
theorem stops_cons {c : Char} (text : List Char) (h : isWordChar c = false) :
    Stops (c :: text) := by
  intro d hd
  cases hd
  exact h

/-- Parts one after the other, with what stands before the first and before the others. -/
def interleaved {α : Type} (lead : Bool → List α) (first : Bool) : List (List α) → List α
  | [] => []
  | part :: parts => lead first ++ (part ++ interleaved lead false parts)

/-- The tokens between the parts of a value. -/
def commaTokens (first : Bool) : List JsonToken := if first then [] else [.comma]

/-- What stands before the parts of a value spells a comma before all but the first. -/
structure Separates (lead : Bool → List Char) : Prop where
  spells : ∀ first {tokens text}, Spells tokens text →
    Spells (commaTokens first ++ tokens) (lead first ++ text)
  stops : ∀ text, Stops (lead false ++ text)

/-- Parts that are separated spell what they spell one by one. -/
theorem Separates.spells_interleaved {lead : Bool → List Char} (hlead : Separates lead)
    {β : Type} {tokensOf : β → List JsonToken} {textOf : β → List Char} {parts : List β}
    (hparts : ∀ part ∈ parts, ∀ {tokens text}, Stops text → Spells tokens text →
      Spells (tokensOf part ++ tokens) (textOf part ++ text)) :
    ∀ first {tokens text}, Stops text → Spells tokens text →
      Spells (interleaved commaTokens first (parts.map tokensOf) ++ tokens)
        (interleaved lead first (parts.map textOf) ++ text) := by
  induction parts with
  | nil => exact fun _ _ _ _ hrest => hrest
  | cons part parts ih =>
      intro first tokens text hstops hrest
      have hmore := ih (fun p hp => hparts p (List.mem_cons_of_mem part hp)) false hstops hrest
      have hstops' : Stops (interleaved lead false (parts.map textOf) ++ text) := by
        cases parts with
        | nil => exact hstops
        | cons p parts =>
            rw [List.map_cons, interleaved, List.append_assoc]
            exact hlead.stops _
      have hfirst := hlead.spells first (hparts part List.mem_cons_self hstops' hmore)
      simpa only [List.map_cons, interleaved, List.append_assoc] using hfirst

theorem itemTokens_eq (items : List (JsonTree Lexeme)) :
    ∀ first, JsonTree.itemTokens first items =
      interleaved commaTokens first (items.map JsonTree.tokens) := by
  induction items with
  | nil => exact fun _ => rfl
  | cons t items ih =>
      intro first
      rw [JsonTree.itemTokens, ih]
      rfl

theorem memberTokens_eq (members : List (Units × JsonTree Lexeme)) :
    ∀ first, JsonTree.memberTokens first members =
      interleaved commaTokens first (members.map fun m => .str m.1 :: .colon :: m.2.tokens) := by
  induction members with
  | nil => exact fun _ => rfl
  | cons m members ih =>
      intro first
      rw [JsonTree.memberTokens, ih]
      rfl

/-- A name, a colon with a blank behind it and a value. -/
theorem spells_member (k : Units) {t : JsonTree Lexeme} {body : List Char}
    {tokens : List JsonToken} {text : List Char}
    (hvalue : Spells (t.tokens ++ tokens) (body ++ text)) :
    Spells ((.str k :: .colon :: t.tokens) ++ tokens)
      ((stringText k ++ ':' :: ' ' :: body) ++ text) := by
  rw [List.append_assoc]
  exact spells_stringText k (.structural ':' rfl (.whitespace ' ' rfl hvalue))

/-- Before the parts of a value on one line. -/
def commaBlank (first : Bool) : List Char := if first then [] else [',', ' ']

theorem separates_commaBlank : Separates commaBlank where
  spells := by
    intro first tokens text hrest
    cases first with
    | true => exact hrest
    | false => exact .structural ',' rfl (.whitespace ' ' rfl hrest)
  stops := fun _ => stops_cons _ rfl

theorem writeItems_eq (items : List (JsonTree Lexeme)) :
    ∀ first, JsonTree.writeItems first items =
      interleaved commaBlank first (items.map JsonTree.write) := by
  induction items with
  | nil => exact fun _ => rfl
  | cons t items ih =>
      intro first
      rw [JsonTree.writeItems, ih]
      rfl

theorem writeMembers_eq (members : List (Units × JsonTree Lexeme)) :
    ∀ first, JsonTree.writeMembers first members = interleaved commaBlank first
      (members.map fun m => stringText m.1 ++ ':' :: ' ' :: m.2.write) := by
  induction members with
  | nil => exact fun _ => rfl
  | cons m members ih =>
      intro first
      rw [JsonTree.writeMembers, ih, List.map_cons, interleaved]
      simp only [List.append_assoc, List.cons_append]
      rfl

/-- What the writer writes spells the value. -/
theorem spells_write (t : JsonTree Lexeme) :
    ∀ {tokens text}, Stops text → Spells tokens text →
      Spells (t.tokens ++ tokens) (t.write ++ text) := by
  induction t with
  | null => exact fun hstops hrest => .word .null hstops hrest
  | bool b =>
      cases b with
      | false => exact fun hstops hrest => .word .boolFalse hstops hrest
      | true => exact fun hstops hrest => .word .boolTrue hstops hrest
  | num x => exact fun hstops hrest => .word (wordText_text x) hstops hrest
  | str s => exact fun _ hrest => spells_stringText s hrest
  | arr items ih =>
      intro tokens text hstops hrest
      have hend : Spells (.endArray :: tokens) (']' :: text) := .structural ']' rfl hrest
      have hitems := separates_commaBlank.spells_interleaved ih true (stops_cons text rfl) hend
      rw [JsonTree.tokens, JsonTree.write, itemTokens_eq, writeItems_eq]
      simp only [List.cons_append, List.append_assoc, List.nil_append]
      exact .structural '[' rfl hitems
  | obj members ih =>
      intro tokens text hstops hrest
      have hend : Spells (.endObject :: tokens) ('}' :: text) := .structural '}' rfl hrest
      have hmembers := separates_commaBlank.spells_interleaved
        (fun m hm {_ _} hstops hrest => spells_member m.1 (ih m hm hstops hrest)) true
        (stops_cons text rfl) hend
      rw [JsonTree.tokens, JsonTree.write, memberTokens_eq, writeMembers_eq]
      simp only [List.cons_append, List.append_assoc, List.nil_append]
      exact .structural '{' rfl hmembers

theorem spells_write_nil (t : JsonTree Lexeme) : Spells t.tokens t.write := by
  simpa using @spells_write t [] [] (fun _ h => nomatch h) .nil

/-- The reader takes back what the writer writes. -/
theorem parseJson_write (t : JsonTree Lexeme) : parseJson t.write = some t :=
  parseJson_of_spells (spells_write_nil t)

end Repercep.Foundation
