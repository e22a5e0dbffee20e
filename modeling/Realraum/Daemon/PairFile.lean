import Realraum.Daemon.Helpers.Files
/-!
# Key-value files, written and read

A key-value file as it is meant has a pair on each line, with blanks in
front and between and anything behind a blank. What is written so is read
back: the parser adds the pairs of the lines, in the order of the lines,
and the first value of a key is the one that is found.
-/

namespace Realraum

namespace Daemon

variable {mem : ℕ → AddMem} {stor : KeyValueStorage}

/-- A key or a value: not empty, without NUL, blank and line feed. -/
def IsWord (w : CStr) : Prop := w ≠ [] ∧ blank ∉ w ∧ linefeed ∉ w ∧ 0 ∉ w

instance (w : CStr) : Decidable (IsWord w) := inferInstanceAs (Decidable (_ ∧ _))

/-- **A line with a pair**: blanks, the key, a blank and more of them, the
value, perhaps a blank and any text, and the line feed, where it has
one. -/
structure PairLine where
  lead : ℕ
  key : CStr
  gap : ℕ
  value : CStr
  text : Option CStr
  newline : Bool
  key_word : IsWord key
  value_word : IsWord value
  text_plain : ∀ t ∈ text, 0 ∉ t ∧ linefeed ∉ t

namespace PairLine

/-- What follows the value. -/
def behind (l : PairLine) : CStr := l.text.elim [] fun t => blank :: t

/-- The line in front of its line feed. -/
def body (l : PairLine) : CStr :=
  List.replicate l.lead blank ++
    (l.key ++ blank :: (List.replicate l.gap blank ++ (l.value ++ l.behind)))

/-- The line feed, if any. -/
def terminator (l : PairLine) : CStr := if l.newline then [linefeed] else []

/-- The line as it stands in the file. -/
def bytes (l : PairLine) : List UInt8 := l.body ++ l.terminator

/-- The pair. -/
def pair (l : PairLine) : CStr × CStr := (l.key, l.value)

theorem terminator_cases (l : PairLine) : l.terminator = [] ∨ l.terminator = [linefeed] := by
  rw [terminator]
  split
  · exact .inr rfl
  · exact .inl rfl

/-- Nothing in front of the line feed ends a line or a string. -/
theorem body_plain (l : PairLine) : linefeed ∉ l.body ∧ 0 ∉ l.body := by
  have hblank : linefeed ≠ blank ∧ (0 : UInt8) ≠ blank := by decide
  have hbehind : linefeed ∉ l.behind ∧ 0 ∉ l.behind := by
    rw [behind]
    cases htext : l.text with
    | none => simp
    | some t =>
        have ht := l.text_plain t htext
        simp [ht.1, ht.2, hblank.1, hblank.2]
  obtain ⟨-, -, hkey, hkey'⟩ := l.key_word
  obtain ⟨-, -, hvalue, hvalue'⟩ := l.value_word
  simp [body, hkey, hkey', hvalue, hvalue', hbehind.1, hbehind.2, hblank.1, hblank.2]

/-- **The words of the line** begin with its pair. -/
theorem fields_body (l : PairLine) :
    ∃ more, Fields.fields blank l.body = l.key :: l.value :: more := by
  obtain ⟨hkey, hkey', -⟩ := l.key_word
  obtain ⟨hvalue, hvalue', -⟩ := l.value_word
  rw [body, Fields.fields_replicate_append, Fields.fields_field hkey hkey',
    Fields.fields_replicate_append, behind]
  cases l.text with
  | none => exact ⟨[], by simp [Fields.fields_of_notMem hvalue hvalue']⟩
  | some t => exact ⟨_, by rw [Option.elim_some, Fields.fields_field hvalue hvalue']⟩

/-- **A line that fits in the buffer is read as its pair.** -/
theorem filePairs_bytes (l : PairLine) (hfits : l.bytes.length ≤ 99) :
    filePairs l.bytes = [l.pair] := by
  obtain ⟨hline, hzero⟩ := l.body_plain
  obtain ⟨more, hfields⟩ := l.fields_body
  have hne : l.body ≠ [] := by simp [body]
  have hchunk : fgetsAll l.bytes = [l.bytes] :=
    Chunks.chunks_of_fits (p := []) hline l.terminator_cases (by simp [hne]) hfits (by decide)
  have htext : cstring l.bytes = l.body ++ l.terminator := by
    refine cstring_of_notMem ?_
    have hline : (0 : UInt8) ≠ linefeed := by decide
    rcases l.terminator_cases with h | h <;> simp [bytes, h, hzero, hline]
  rw [filePairs, hchunk, List.filterMap_cons_some (b := l.pair), List.filterMap_nil]
  rw [parseKeyValue_fields htext hline l.terminator_cases, hfields]
  rfl

end PairLine

/-- **A file of such lines**, each of which fits in the buffer; only the
last may lack its line feed. -/
structure PairFile where
  lines : List PairLine
  fits : ∀ l ∈ lines, l.bytes.length ≤ 99
  ends : ∀ l ∈ lines.dropLast, l.newline = true

namespace PairFile

/-- The bytes of the file. -/
def bytes (f : PairFile) : List UInt8 := f.lines.flatMap PairLine.bytes

example : bytes ⟨[⟨1, ascii "lamp", 1, ascii "b", some (ascii "hall"), true, by decide, by decide,
    by decide⟩], by decide, by decide⟩ = ascii " lamp  b hall" ++ [linefeed] := by decide

/-- The pairs of the file. -/
def pairs (f : PairFile) : List (CStr × CStr) := f.lines.map PairLine.pair

/-- **What is written is read back.** -/
theorem filePairs_bytes (f : PairFile) : filePairs f.bytes = f.pairs := by
  obtain ⟨lines, hfits, hends⟩ := f
  simp only [bytes, pairs]
  induction lines with
  | nil => rfl
  | cons l lines ih =>
      have hl := l.filePairs_bytes (hfits l List.mem_cons_self)
      cases lines with
      | nil => simpa using hl
      | cons l' lines =>
          have hnewline : l.newline = true := hends l (by simp)
          have hlast : l.bytes = [] ∨ l.bytes.getLast? = some linefeed := by
            rw [PairLine.bytes, PairLine.terminator, if_pos hnewline]
            exact .inr List.getLast?_concat
          rw [List.flatMap_cons, filePairs_append hlast, hl, List.map_cons, List.singleton_append]
          congr 1
          exact ih (fun x hx => hfits x (List.mem_cons_of_mem _ hx))
            fun x hx => hends x (by simp [hx])

/-- The value of a key in the file, that of its first line. -/
theorem find_pairs (f : PairFile) {l : PairLine} (hl : l ∈ f.lines) :
    ∃ before l' after, f.lines = before ++ l' :: after ∧ l'.key = l.key ∧
      (∀ m ∈ before, m.key ≠ l.key) ∧
      (f.pairs.find? fun pair => pair.1 = l.key) = some l'.pair := by
  have hsome : (f.lines.find? fun m => m.key = l.key).isSome := by
    rw [List.find?_isSome]
    exact ⟨l, hl, by simp⟩
  obtain ⟨l', hl'⟩ := Option.isSome_iff_exists.mp hsome
  obtain ⟨hkey, before, after, hlines, hbefore⟩ := List.find?_eq_some_iff_append.mp hl'
  refine ⟨before, l', after, hlines, by simpa using hkey,
    fun m hm => by simpa using hbefore m hm, ?_⟩
  rw [pairs, List.find?_map]
  change (f.lines.find? fun m => m.key = l.key).map PairLine.pair = _
  rw [hl']
  rfl

end PairFile

/-- **Key-value files are read as they are written.** The parser adds the
pairs of the lines in the order of the lines to whatever is in the storage,
unless memory runs out for one of them; and in a storage that was empty
every key of the file has the value of its first line. -/
theorem pairFile_read (f : PairFile) :
    (∀ (mem : ℕ → AddMem) (stor : KeyValueStorage),
      optionsParseKeyValueFile (some f.bytes) mem stor =
          (0, ⟨stor.keys ++ f.lines.map PairLine.key, stor.values ++ f.lines.map PairLine.value⟩) ∨
        (optionsParseKeyValueFile (some f.bytes) mem stor).1 = -2 ∧
          ∃ i < f.lines.length, ¬ ((mem i).key = true ∧ (mem i).value = true)) ∧
    ∀ (mem : ℕ → AddMem) (stor : KeyValueStorage),
      optionsParseKeyValueFile (some f.bytes) mem .empty = (0, stor) →
      ∀ l ∈ f.lines, ∃ before l' after, f.lines = before ++ l' :: after ∧ l'.key = l.key ∧
        (∀ m ∈ before, m.key ≠ l.key) ∧ keyValueStorageFind stor (some l.key) = some l'.value := by
  constructor
  · intro mem stor
    have hkeys : f.pairs.map Prod.fst = f.lines.map PairLine.key := List.map_map
    have hvalues : f.pairs.map Prod.snd = f.lines.map PairLine.value := List.map_map
    have hlength : f.pairs.length = f.lines.length := List.length_map _
    rw [← hkeys, ← hvalues, ← hlength, optionsParseKeyValueFile, f.filePairs_bytes]
    exact addPairs_cases f.pairs mem stor
  · intro mem stor hread l hl
    obtain ⟨before, l', after, hlines, hkey, hbefore, hfind⟩ := f.find_pairs hl
    refine ⟨before, l', after, hlines, hkey, hbefore, ?_⟩
    rw [find_of_file hread, f.filePairs_bytes, hfind]
    rfl

end Daemon

end Realraum
