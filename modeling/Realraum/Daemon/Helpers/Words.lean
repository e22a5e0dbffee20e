import Realraum.Daemon.Model.Commands
/-!
# Helpers — the words of a command line

`process_cmd` tells the commands apart by what a line begins with, and
takes what follows the first blank for the parameter. Both are read here
as ways of writing the line as a word and a rest.
-/

namespace Realraum

namespace Daemon

variable {s w rest : CStr} {id : CmdId} {line cmd : CStr}

theorem startsWith_iff {lit : String} :
    startsWith s lit = true ↔ ∃ rest, s = ascii lit ++ rest := by
  rw [startsWith, List.isPrefixOf_iff_prefix]
  exact ⟨fun ⟨rest, h⟩ => ⟨rest, h.symm⟩, fun ⟨rest, h⟩ => ⟨rest, h.symm⟩⟩

/-! ## The first blank -/

theorem behindBlank_append (hw : blank ∉ w) : behindBlank (w ++ rest) = behindBlank rest := by
  rw [behindBlank, behindBlank, List.dropWhile_append_of_pos]
  intro b hb
  have hne : b ≠ blank := fun h => hw (h ▸ hb)
  simpa using hne

@[simp] theorem behindBlank_blank : behindBlank (blank :: rest) = some rest := by
  simp [behindBlank]

/-! ## The commands -/

/-- What a line of this command begins with. -/
def CmdId.word : CmdId → String
  | .powerOn => "power on"
  | .powerOff => "power off"
  | .sample => "sample"
  | .log => "log"
  | .listen => "listen"

/-- The word after `cmd[5] = '_'`. -/
def CmdId.joined : CmdId → String
  | .powerOn => "power_on"
  | .powerOff => "power_off"
  | .sample => "sample"
  | .log => "log"
  | .listen => "listen"

/-- **A line that begins with a command's word is that command.** -/
theorem recognise_word (id : CmdId) (rest : CStr) :
    recognise (ascii id.word ++ rest) = some (id, ascii id.joined ++ rest) := by
  cases id <;> rfl

/-- And a command is recognised by its word only. -/
theorem eq_of_recognise (h : recognise line = some (id, cmd)) :
    ∃ rest, line = ascii id.word ++ rest ∧ cmd = ascii id.joined ++ rest := by
  have key : ∀ (id' : CmdId) (rest : CStr), line = ascii id'.word ++ rest →
      ∃ rest, line = ascii id.word ++ rest ∧ cmd = ascii id.joined ++ rest := by
    rintro id' rest rfl
    rw [recognise_word] at h
    cases h
    exact ⟨rest, rfl, rfl⟩
  by_cases hon : startsWith line "power on"
  · obtain ⟨rest, hrest⟩ := startsWith_iff.mp hon
    exact key .powerOn rest hrest
  by_cases hoff : startsWith line "power off"
  · obtain ⟨rest, hrest⟩ := startsWith_iff.mp hoff
    exact key .powerOff rest hrest
  by_cases hsample : startsWith line "sample"
  · obtain ⟨rest, hrest⟩ := startsWith_iff.mp hsample
    exact key .sample rest hrest
  by_cases hlog : startsWith line "log"
  · obtain ⟨rest, hrest⟩ := startsWith_iff.mp hlog
    exact key .log rest hrest
  by_cases hlisten : startsWith line "listen"
  · obtain ⟨rest, hrest⟩ := startsWith_iff.mp hlisten
    exact key .listen rest hrest
  rw [recognise, if_neg hon, if_neg hoff, if_neg hsample, if_neg hlog, if_neg hlisten] at h
  cases h

/-- The parameter is what follows the first blank behind the word. -/
theorem behindBlank_joined (id : CmdId) (rest : CStr) :
    behindBlank (ascii id.joined ++ rest) = behindBlank rest :=
  behindBlank_append (by cases id <;> decide)

/-- A line that begins with `listen` is taken as it stands. -/
theorem recognise_listen_iff :
    startsWith line "listen" = true ↔ recognise line = some (.listen, line) := by
  constructor
  · intro h
    obtain ⟨rest, rfl⟩ := startsWith_iff.mp h
    exact recognise_word .listen rest
  · intro h
    obtain ⟨rest, hrest, -⟩ := eq_of_recognise h
    exact startsWith_iff.mpr ⟨rest, hrest⟩

theorem eq_of_recognise_listen (h : recognise line = some (.listen, cmd)) : cmd = line := by
  obtain ⟨rest, rfl, rfl⟩ := eq_of_recognise h
  rfl

end Daemon

end Realraum
