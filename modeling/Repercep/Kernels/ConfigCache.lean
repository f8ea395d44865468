import Mathlib
import Repercep.Foundation.Files
import Repercep.Foundation.JsonIndented
import Repercep.Foundation.Machine
set_option autoImplicit false

/-!
# The autotune cache of the FP8 kernel

`_record_config` reads the whole cache file, enters the winner of one shape, writes
everything to a temporary file of a fixed name and renames that over the cache.  Any number
of calls, in one process or in several, take these steps in any order on the same two names.

The schedule says which call moves and how much a `read` or a `write` of the system takes.
-/

namespace Repercep.Kernels.ConfigCache

open Repercep.Foundation

/-! ## One call -/

/-- The dict of the cache: a configuration under the key of each shape. -/
abbrev Entries : Type := List (Units × PyValue)

/-- The arguments of `_record_config`. -/
structure Recording where
  B : Int
  H : Int
  Sq : Int
  Skv : Int
  D : Int
  causal : Bool
  cfg : Entries

/-- `str(n)`. -/
def decimal (n : Int) : List Char := (Literal.ofInt n).text

/-- The text of `_cache_key`. -/
def keyText (r : Recording) : List Char :=
  'B' :: (decimal r.B ++ '_' :: 'H' :: (decimal r.H ++ '_' :: 'S' :: 'q' :: (decimal r.Sq ++
    '_' :: 'S' :: 'k' :: 'v' :: (decimal r.Skv ++ '_' :: 'D' :: (decimal r.D ++
      '_' :: 'C' :: decimal (if r.causal then 1 else 0))))))

/-- `_cache_key`. -/
def cacheKey (r : Recording) : Units := (keyText r).flatMap utf16

/-- The end of `_cache_load`, from the text of the file. -/
def cacheLoad (text : List Char) : Entries :=
  match parseJson text with
  | none => []
  | some t =>
      match (t.map numberOfLexeme).resolve with
      | .obj members => members
      | _ => []

/-- `cache[key] = cfg`. -/
def Recording.enter (r : Recording) (cache : Entries) : Entries :=
  assignEntry (cacheKey r) (.obj r.cfg) cache

/-- `json.dump(cache, fh, indent=2, sort_keys=True)`. -/
def dumped (cache : Entries) : List Char :=
  (((JsonTree.obj cache).map lexemeOf).sortKeys).writeIndented 0

/-- The text is a JSON object. -/
def IsObject (text : List Char) : Prop := ∃ members, parseJson text = some (.obj members)

/-- The keys of a cache file. -/
def keysOf (text : List Char) : List Units := (cacheLoad text).map Prod.fst

theorem mem_map_fst_enter {r : Recording} {cache : Entries} {k : Units} :
    k ∈ (r.enter cache).map Prod.fst ↔ k = cacheKey r ∨ k ∈ cache.map Prod.fst :=
  mem_map_fst_assignEntry

/-- The members that are written of a cache. -/
def writtenMembers (cache : Entries) : List (Units × JsonTree Lexeme) :=
  sortMembers (cache.map fun m => (m.1, (m.2.map lexemeOf).sortKeys))

theorem parseJson_dumped (cache : Entries) :
    parseJson (dumped cache) = some (.obj (writtenMembers cache)) := by
  have htree : ((JsonTree.obj cache).map lexemeOf).sortKeys = .obj (writtenMembers cache) := by
    simp [JsonTree.map, JsonTree.sortKeys, writtenMembers, Function.comp_def]
  rw [dumped, htree, parseJson_writeIndented]

/-- What is dumped is a complete object. -/
theorem isObject_dumped (cache : Entries) : IsObject (dumped cache) :=
  ⟨_, parseJson_dumped cache⟩

/-- What is dumped is loaded with the same keys. -/
theorem mem_keysOf_dumped {cache : Entries} {k : Units} :
    k ∈ keysOf (dumped cache) ↔ k ∈ cache.map Prod.fst := by
  have hload : cacheLoad (dumped cache) = dictOf ((writtenMembers cache).map fun m =>
      (m.1, (m.2.map numberOfLexeme).resolve)) := by
    simp [cacheLoad, parseJson_dumped, JsonTree.map, JsonTree.resolve, Function.comp_def]
  have hkeys : ((writtenMembers cache).map fun m =>
      (m.1, (m.2.map numberOfLexeme).resolve)).map Prod.fst =
        (writtenMembers cache).map Prod.fst := by
    simp [Function.comp_def]
  rw [keysOf, hload, mem_map_fst_dictOf, hkeys, writtenMembers, mem_map_fst_sortMembers]
  simp

/-! ### Steps -/

/-- The names that every call uses. -/
inductive FileName where
  | cache
  | tmp
  deriving DecidableEq

/-- The directory of the cache, with the contents as text. -/
abbrev Directory : Type := Files FileName Char

/-- Where a call stands. -/
inductive Phase where
  | called
  /-- the cache file exists -/
  | found
  /-- `json.load` has read `text`, the file `i` up to `pos` -/
  | reading (i pos : Nat) (text : List Char)
  /-- the dict holds the new entry -/
  | loaded (cache : Entries)
  /-- the temporary file `i` is written up to `pos`, `rest` is to come -/
  | writing (i pos : Nat) (rest : List Char)
  | closed
  | returned
  /-- the exception of `tmp.replace(path)` -/
  | raised

/-- The file operations a call waits for. -/
inductive Action where
  | exists
  | openRead
  | read (n : Nat)
  | openWrite
  | write (n : Nat)
  | close
  | replace

/-- One step of `_record_config`. -/
def advance (r : Recording) (f : Directory) : Phase → Action → Option (Directory × Phase)
  | .called, .exists =>
      match f.entry .cache with
      | none => some (f, .loaded (r.enter []))
      | some _ => some (f, .found)
  | .found, .openRead =>
      match f.entry .cache with
      | none => some (f, .loaded (r.enter []))
      | some i => some (f, .reading i 0 [])
  | .reading i pos text, .read n =>
      match f.chunk i pos (n + 1) with
      | [] => some (f, .loaded (r.enter (cacheLoad text)))
      | new => some (f, .reading i (pos + new.length) (text ++ new))
  | .loaded cache, .openWrite =>
      some (f.openWrite .tmp, .writing (f.target .tmp) 0 (dumped cache))
  | .writing i pos (c :: rest), .write n =>
      some (f.writeAt '\x00' i pos (c :: rest.take n),
        .writing i (pos + (c :: rest.take n).length) (rest.drop n))
  | .writing _ _ [], .close => some (f, .closed)
  | .closed, .replace =>
      match f.rename .tmp .cache with
      | none => some (f, .raised)
      | some g => some (g, .returned)
  | _, _ => none

/-! ## All calls -/

section System

variable {n : Nat}

/-- The files, and where each call stands. -/
structure State (n : Nat) where
  files : Directory
  phase : Fin n → Phase

/-- Files 0 and 1 under the two names, where there are any. -/
def startEntry (cache tmp : Option (List Char)) : FileName → Option Nat
  | .cache => cache.map fun _ => 0
  | .tmp => tmp.map fun _ => 1

theorem startEntry_lt (cache tmp : Option (List Char)) (m : FileName) (i : Nat)
    (h : startEntry cache tmp m = some i) : i < 2 := by
  cases m with
  | cache =>
      obtain ⟨_, -, rfl⟩ := Option.map_eq_some_iff.mp h
      exact Nat.zero_lt_two
  | tmp =>
      obtain ⟨_, -, rfl⟩ := Option.map_eq_some_iff.mp h
      exact Nat.one_lt_two

/-- Before any call: a cache file and a temporary file that some earlier call has left, or
neither. -/
def start (cache tmp : Option (List Char)) : State n where
  files :=
    { content := fun i => if i = 0 then cache.getD [] else tmp.getD []
      entry := startEntry cache tmp
      next := 2
      named := startEntry_lt cache tmp }
  phase := fun _ => .called

/-- The state after a step of `p`. -/
def State.moved (s : State n) (p : Fin n) (g : Directory) (ph : Phase) : State n where
  files := g
  phase := Function.update s.phase p ph

@[simp] theorem State.moved_files (s : State n) (p : Fin n) (g : Directory) (ph : Phase) :
    (s.moved p g ph).files = g := rfl

@[simp] theorem State.moved_phase_self (s : State n) (p : Fin n) (g : Directory) (ph : Phase) :
    (s.moved p g ph).phase p = ph := Function.update_self _ _ _

theorem State.moved_phase_of_ne {s : State n} {p q : Fin n} {g : Directory} {ph : Phase}
    (h : q ≠ p) : (s.moved p g ph).phase q = s.phase q := Function.update_of_ne h _ _

/-- One call takes one file operation. -/
def step (recordings : Fin n → Recording) (s : State n) (a : Fin n × Action) :
    Option (List Empty × State n) :=
  (advance (recordings a.1) s.files (s.phase a.1) a.2).map fun p => ([], s.moved a.1 p.1 p.2)

/-- The calls with their recordings, from what is in the directory. -/
def machine (recordings : Fin n → Recording) (cache tmp : Option (List Char)) :
    Machine (State n) (Fin n × Action) Empty where
  init := start cache tmp
  step := step recordings

/-! ## What is asked of the cache -/

/-- The cache file is absent or a complete JSON object. -/
def WellFormed (s : State n) : Prop := ∀ text ∈ s.files.text .cache, IsObject text

/-- The shape of the call has an entry in the cache file. -/
def Recorded (recordings : Fin n → Recording) (s : State n) (p : Fin n) : Prop :=
  ∃ text ∈ s.files.text .cache, cacheKey (recordings p) ∈ keysOf text

/-- Between the opening of the temporary file and its renaming. -/
def Phase.usesTmp : Phase → Prop
  | .writing _ _ _ => True
  | .closed => True
  | _ => False

/-- The dict of a call that records under `own`, where it has one or reads one, holds an
entry for `k`. -/
def Phase.Knows (f : Directory) (own k : Units) : Phase → Prop
  | .reading i _ _ => k = own ∨ k ∈ keysOf (f.content i)
  | .loaded cache => k ∈ cache.map Prod.fst
  | _ => True

/-- A call renames only where no other uses the temporary file, and no other has or reads a
dict without this call's entry. -/
def RenamesAlone (recordings : Fin n → Recording) (s : State n) : Fin n × Action → Prop
  | (p, .replace) => ∀ q, q ≠ p → ¬ (s.phase q).usesTmp ∧
      (s.phase q).Knows s.files (cacheKey (recordings q)) (cacheKey (recordings p))
  | _ => True

/-! ### Deciding it of a state -/

instance (ph : Phase) : Decidable (ph = .returned) :=
  match ph with
  | .returned => isTrue rfl
  | .called => isFalse nofun
  | .found => isFalse nofun
  | .reading _ _ _ => isFalse nofun
  | .loaded _ => isFalse nofun
  | .writing _ _ _ => isFalse nofun
  | .closed => isFalse nofun
  | .raised => isFalse nofun

instance (ph : Phase) : Decidable ph.usesTmp :=
  match ph with
  | .writing _ _ _ => isTrue trivial
  | .closed => isTrue trivial
  | .called => isFalse nofun
  | .found => isFalse nofun
  | .reading _ _ _ => isFalse nofun
  | .loaded _ => isFalse nofun
  | .returned => isFalse nofun
  | .raised => isFalse nofun

instance (f : Directory) (own k : Units) (ph : Phase) : Decidable (ph.Knows f own k) :=
  match ph with
  | .reading i _ _ => inferInstanceAs (Decidable (k = own ∨ k ∈ keysOf (f.content i)))
  | .loaded cache => inferInstanceAs (Decidable (k ∈ cache.map Prod.fst))
  | .called => isTrue trivial
  | .found => isTrue trivial
  | .writing _ _ _ => isTrue trivial
  | .closed => isTrue trivial
  | .returned => isTrue trivial
  | .raised => isTrue trivial

instance (recordings : Fin n → Recording) (s : State n) (a : Fin n × Action) :
    Decidable (RenamesAlone recordings s a) :=
  match a with
  | (p, .replace) => inferInstanceAs (Decidable (∀ q, q ≠ p → ¬ (s.phase q).usesTmp ∧
      (s.phase q).Knows s.files (cacheKey (recordings q)) (cacheKey (recordings p))))
  | (_, .exists) => isTrue trivial
  | (_, .openRead) => isTrue trivial
  | (_, .read _) => isTrue trivial
  | (_, .openWrite) => isTrue trivial
  | (_, .write _) => isTrue trivial
  | (_, .close) => isTrue trivial

instance (text : List Char) : Decidable (IsObject text) :=
  match h : parseJson text with
  | some (.obj members) => isTrue ⟨members, h⟩
  | none => isFalse fun ⟨_, h'⟩ => nomatch h.symm.trans h'
  | some .null => isFalse fun ⟨_, h'⟩ => nomatch h.symm.trans h'
  | some (.bool _) => isFalse fun ⟨_, h'⟩ => nomatch h.symm.trans h'
  | some (.num _) => isFalse fun ⟨_, h'⟩ => nomatch h.symm.trans h'
  | some (.str _) => isFalse fun ⟨_, h'⟩ => nomatch h.symm.trans h'
  | some (.arr _) => isFalse fun ⟨_, h'⟩ => nomatch h.symm.trans h'

instance (s : State n) : Decidable (WellFormed s) :=
  inferInstanceAs (Decidable (∀ text ∈ s.files.text .cache, IsObject text))

instance (recordings : Fin n → Recording) (s : State n) (p : Fin n) :
    Decidable (Recorded recordings s p) :=
  inferInstanceAs (Decidable
    (∃ text ∈ s.files.text .cache, cacheKey (recordings p) ∈ keysOf text))

end System

end Repercep.Kernels.ConfigCache
