import Mathlib.Data.Int.Notation
import Mathlib.Logic.Function.Basic
import Realraum.Common.Reach
/-!
# The presence tracker — the guards of `UWSConfig`

The configuration is read and written under a lock of its own making:
`guardReading` and `guardWriting` over a counter, a flag and two condition
variables of one mutex. What runs between acquiring the mutex and releasing
it, by leaving the `with` block or by waiting, is one step. Any number of
threads bracket what they do with a guard and its unguard.
-/

namespace Realraum

namespace Presence

/-- Where a thread is. One that waits was notified or was not; when it was,
it goes on as soon as it gets the mutex. -/
inductive Place
  | outside
  /-- `finished_writing.wait()` in `guardReading`. -/
  | awaitsWriters (notified : Bool)
  /-- Between `guardReading` and `unguardReading`. -/
  | reading
  /-- `finished_reading.wait()` in `guardWriting`. -/
  | awaitsReaders (notified : Bool)
  /-- Between `guardWriting` and `unguardWriting`. -/
  | writing
  deriving DecidableEq

/-- **The guards**: the counter, the flag, and where each thread is. -/
structure UWSConfig (ι : Type*) where
  currentlyReading : ℤ
  currentlyWriting : Bool
  place : ι → Place

namespace UWSConfig

variable {ι : Type*} [DecidableEq ι]

/-- Behind `__init__`, with every thread outside. -/
def init : UWSConfig ι := ⟨0, false, fun _ => .outside⟩

/-- A thread goes to a place. -/
def goes (t : ι) (p : Place) (c : UWSConfig ι) : UWSConfig ι :=
  { c with place := Function.update c.place t p }

/-- `finished_writing.notifyAll()`. -/
def notifyReaders (c : UWSConfig ι) : UWSConfig ι :=
  { c with
    place := fun t =>
      if c.place t = .awaitsWriters false then .awaitsWriters true else c.place t }

/-- `finished_reading.notifyAll()`. -/
def notifyWriters (c : UWSConfig ι) : UWSConfig ι :=
  { c with
    place := fun t =>
      if c.place t = .awaitsReaders false then .awaitsReaders true else c.place t }

/-- The loop of `guardReading`, and what follows it. -/
def enterReading (t : ι) (c : UWSConfig ι) : UWSConfig ι :=
  if c.currentlyWriting then c.goes t (.awaitsWriters false)
  else { c.goes t .reading with currentlyReading := c.currentlyReading + 1 }

/-- The loop of `guardWriting`. -/
def enterWriting (t : ι) (c : UWSConfig ι) : UWSConfig ι :=
  if 0 < c.currentlyReading then c.goes t (.awaitsReaders false) else c.goes t .writing

/-- `guardReading`. -/
def guardReading (t : ι) (c : UWSConfig ι) : UWSConfig ι := c.enterReading t

/-- `unguardReading`. -/
def unguardReading (t : ι) (c : UWSConfig ι) : UWSConfig ι :=
  ({ c.goes t .outside with currentlyReading := c.currentlyReading - 1 }).notifyWriters

/-- `guardWriting`. -/
def guardWriting (t : ι) (c : UWSConfig ι) : UWSConfig ι :=
  ({ c with currentlyWriting := true }).enterWriting t

/-- `unguardWriting`. -/
def unguardWriting (t : ι) (c : UWSConfig ι) : UWSConfig ι :=
  ({ c.goes t .outside with currentlyWriting := false }).notifyReaders

end UWSConfig

/-- What a thread does next. -/
inductive Op
  | guardReading
  | unguardReading
  | guardWriting
  | unguardWriting
  /-- It was notified, and gets the mutex. -/
  | wakes
  deriving DecidableEq

variable {ι : Type*} [DecidableEq ι]

/-- **One step of a thread.** It calls a guard outside, and an unguard
between the guard and it. -/
def guardStep (a : ι × Op) (c : UWSConfig ι) : Option (UWSConfig ι) :=
  match a.2, c.place a.1 with
  | .guardReading, .outside => some (c.guardReading a.1)
  | .unguardReading, .reading => some (c.unguardReading a.1)
  | .guardWriting, .outside => some (c.guardWriting a.1)
  | .unguardWriting, .writing => some (c.unguardWriting a.1)
  | .wakes, .awaitsWriters true => some (c.enterReading a.1)
  | .wakes, .awaitsReaders true => some (c.enterWriting a.1)
  | _, _ => none

end Presence

end Realraum
