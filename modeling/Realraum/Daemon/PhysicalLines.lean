import Realraum.Daemon.Helpers.Files
/-!
# One line of a key-value file, one pair

The parser is called for each chunk of at most 99 bytes that `fgets`
gives, not for each line. A line that is cut up gives the first two words
of every piece that has two; and a line with one word, blanks and the line
feed gives that word an empty value. The result says which lines do
neither.
-/

namespace Realraum

namespace Daemon

variable {file line buf : List UInt8} {k v : CStr}

/-- The lines of a file. -/
def physicalLines (file : List UInt8) : List (List UInt8) := Chunks.lines linefeed file

/-- The words of a line. -/
def lineWords (line : List UInt8) : List CStr :=
  Fields.fields blank (line.takeWhile (· ≠ linefeed))

/-- **The line is read for what it says**: it adds its first two words as
a pair, or nothing. No word is empty. -/
def ReadsRight (line : List UInt8) : Prop :=
  filePairs line = [] ∨
    ∃ k v more, lineWords line = k :: v :: more ∧ filePairs line = [(k, v)]

/-- The piece has two words. -/
def TwoWords (buf : List UInt8) : Prop := 2 ≤ (chunkFields buf).length

instance : DecidablePred TwoWords := fun _ => inferInstanceAs (Decidable (2 ≤ _))

/-- **The pieces of a line that is read right**: none is one word, blanks
and the line feed; one at most has two words; and those are the first two
of the line. -/
structure WellCut (line : List UInt8) : Prop where
  not_bare : ∀ buf ∈ fgetsAll line, ¬ Bare buf
  one_pair : ((fgetsAll line).filter TwoWords).length ≤ 1
  first_words : ∀ buf ∈ fgetsAll line, TwoWords buf →
    (chunkFields buf).take 2 = (lineWords line).take 2

theorem twoWords_iff : TwoWords buf ↔ ∃ k v more, chunkFields buf = k :: v :: more := by
  rw [TwoWords]
  rcases chunkFields buf with - | ⟨k, - | ⟨v, more⟩⟩ <;> simp

/-- A piece that is not bare gives a pair just in case it has two
words. -/
theorem isSome_parseKeyValue (h : buf ∈ fgetsAll line) (hbare : ¬ Bare buf) :
    (parseKeyValue buf).isSome = true ↔ TwoWords buf := by
  rw [twoWords_iff, Option.isSome_iff_exists]
  constructor
  · rintro ⟨⟨k, v⟩, hparse⟩
    rcases (parseKeyValue_of_mem h).mp hparse with ⟨-, hbare', -⟩ | ⟨more, hmore⟩
    · exact absurd hbare' hbare
    · exact ⟨k, v, more, hmore⟩
  · rintro ⟨k, v, more, hmore⟩
    exact ⟨(k, v), (parseKeyValue_of_mem h).mpr (.inr ⟨more, hmore⟩)⟩

/-- **The pairs of a line are as many as its pieces with two words.** -/
theorem length_filePairs (hbare : ∀ buf ∈ fgetsAll line, ¬ Bare buf) :
    (filePairs line).length = ((fgetsAll line).filter TwoWords).length := by
  rw [filePairs, List.length_filterMap_eq_countP, ← List.countP_eq_length_filter]
  refine List.countP_congr fun buf hbuf => ?_
  rw [isSome_parseKeyValue hbuf (hbare buf hbuf), decide_eq_true_eq]

theorem ReadsRight.wellCut (h : ReadsRight line) : WellCut line := by
  have hmem : ∀ {k v : CStr} {buf : List UInt8}, buf ∈ fgetsAll line →
      parseKeyValue buf = some (k, v) →
      ∃ more, lineWords line = k :: v :: more ∧ filePairs line = [(k, v)] :=
    fun {k v buf} hbuf hparse => by
      have hpair : (k, v) ∈ filePairs line := List.mem_filterMap.mpr ⟨buf, hbuf, hparse⟩
      rcases h with hnil | ⟨k', v', more, hwords, hone⟩
      · rw [hnil] at hpair
        cases hpair
      · rw [hone] at hpair
        obtain ⟨rfl, rfl⟩ := Prod.mk.inj (List.mem_singleton.mp hpair)
        exact ⟨more, hwords, hone⟩
  have hbare : ∀ buf ∈ fgetsAll line, ¬ Bare buf := fun buf hbuf hbare => by
    obtain ⟨k, hk⟩ := List.length_eq_one_iff.mp hbare.1
    obtain ⟨more, hwords, -⟩ := hmem hbuf ((parseKeyValue_of_mem hbuf).mpr (.inl ⟨rfl, hbare, hk⟩))
    -- the value would be an empty word of the line
    have hempty : [] ∈ lineWords line := by rw [hwords]; simp
    exact Fields.ne_nil_of_mem_fields hempty rfl
  refine ⟨hbare, ?_, fun buf hbuf htwo => ?_⟩
  · rw [← length_filePairs hbare]
    rcases h with hnil | ⟨k, v, more, -, hone⟩
    · rw [hnil]
      exact Nat.zero_le 1
    · rw [hone]
      rfl
  · obtain ⟨k, v, more, hmore⟩ := twoWords_iff.mp htwo
    obtain ⟨more', hwords, -⟩ :=
      hmem hbuf ((parseKeyValue_of_mem hbuf).mpr (.inr ⟨more, hmore⟩))
    rw [hmore, hwords]
    rfl

theorem WellCut.readsRight (h : WellCut line) : ReadsRight line := by
  have hlength := length_filePairs h.not_bare
  cases hpairs : filePairs line with
  | nil => exact .inl hpairs
  | cons pair more =>
      rw [hpairs] at hlength
      obtain rfl : more = [] := List.length_eq_zero_iff.mp (by
        have hone := h.one_pair
        rw [List.length_cons] at hlength
        omega)
      have hmem : pair ∈ filePairs line := by rw [hpairs]; simp
      obtain ⟨buf, hbuf, hparse⟩ := List.mem_filterMap.mp hmem
      obtain ⟨k, v⟩ := pair
      rcases (parseKeyValue_of_mem hbuf).mp hparse with ⟨-, hbare, -⟩ | ⟨more, hmore⟩
      · exact absurd hbare (h.not_bare buf hbuf)
      · have htake := h.first_words buf hbuf (twoWords_iff.mpr ⟨k, v, more, hmore⟩)
        rw [hmore] at htake
        refine .inr ⟨k, v, (lineWords line).drop 2, ?_, hpairs⟩
        rw [← List.take_append_drop 2 (lineWords line), ← htake]
        simp

/-- **A line that fits in the buffer** is well cut unless it is bare. -/
theorem wellCut_of_fits (hline : line ∈ physicalLines file) (hzero : 0 ∉ line)
    (hfits : line.length ≤ 99) : WellCut line ↔ ¬ Bare line := by
  obtain ⟨body, e, rfl, hbody, he, hne⟩ := Chunks.exists_of_mem_lines hline
  have hpieces : fgetsAll (body ++ e) = [body ++ e] :=
    Chunks.chunks_of_fits (p := []) hbody he hne hfits (by decide)
  constructor
  · exact fun h => h.not_bare _ (by rw [hpieces]; simp)
  · intro hbare
    refine ⟨?_, ?_, ?_⟩
    · rw [hpieces]
      simpa using hbare
    · rw [hpieces]
      exact List.length_filter_le _ _
    · rw [hpieces]
      rintro buf hbuf -
      rw [List.mem_singleton.mp hbuf, chunkFields, chunkBody, cstring_of_notMem hzero, lineWords]

theorem filePairs_eq_flatMap (file : List UInt8) :
    filePairs file = (physicalLines file).flatMap filePairs := by
  rw [filePairs, fgetsAll, Chunks.chunks_eq_flatMap_lines, List.filterMap_flatMap]
  rfl

/-- **When each line gives its own pair.** What the parser adds is what
the lines of the file add, one after the other. Each of them adds its first
two words or nothing, just in case it is well cut; and a line without NUL
that fits in the buffer is, unless it is one word, blanks and the line
feed. -/
theorem line_readsRight_iff (file : List UInt8) :
    (∀ (mem : ℕ → AddMem) (stor stor' : KeyValueStorage),
      optionsParseKeyValueFile (some file) mem stor = (0, stor') →
      stor' = ⟨stor.keys ++ ((physicalLines file).flatMap filePairs).map Prod.fst,
        stor.values ++ ((physicalLines file).flatMap filePairs).map Prod.snd⟩) ∧
    ∀ line ∈ physicalLines file, (ReadsRight line ↔ WellCut line) ∧
      (0 ∉ line → line.length ≤ 99 → (WellCut line ↔ ¬ Bare line)) := by
  constructor
  · intro mem stor stor' h
    rw [← filePairs_eq_flatMap]
    exact addPairs_eq_zero h
  · intro line hline
    exact ⟨⟨ReadsRight.wellCut, WellCut.readsRight⟩, fun hzero => wellCut_of_fits hline hzero⟩

/-- A line with a key, a blank and nothing else. -/
def bareLine : List UInt8 := ascii "lamp " ++ [linefeed]

/-- A line with much behind its value. -/
def longLine : List UInt8 :=
  ascii "lamp b " ++ List.replicate 92 120 ++ ascii " fan c" ++ [linefeed]

/-- **An empty value is stored, and text behind the value is not
ignored.** -/
theorem line_readsRight_fails :
    physicalLines bareLine = [bareLine] ∧ filePairs bareLine = [(ascii "lamp", [])] ∧
      ¬ ReadsRight bareLine ∧ physicalLines longLine = [longLine] ∧
      filePairs longLine = [(ascii "lamp", ascii "b"), (ascii "fan", ascii "c")] ∧
      ¬ ReadsRight longLine := by
  have hbare : filePairs bareLine = [(ascii "lamp", [])] := by decide
  have hlong : filePairs longLine = [(ascii "lamp", ascii "b"), (ascii "fan", ascii "c")] := by
    decide +kernel
  refine ⟨by decide, hbare, fun h => ?_, by decide +kernel, hlong, fun h => ?_⟩
  · have hone := h.wellCut.not_bare bareLine (by decide)
    exact hone (by decide)
  · rcases h with hnil | ⟨k, v, more, -, hone⟩
    · rw [hlong] at hnil
      cases hnil
    · rw [hlong] at hone
      cases hone

end Daemon

end Realraum
