import Mathlib.Data.Rat.Floor
/-!
# The firmware — the light level

`updateLightLevel` takes a reading in every 4000th pass of `loop()` and
keeps a mean of them. An `unsigned int` has 16 bits. The floating point
expression for the new mean is exact here.
-/

namespace Realraum

namespace Firmware

/-- `PHOTO_SAMPLE_INTERVAL`. -/
def photoSampleInterval : UInt16 := 4000

/-- The globals of the light level. -/
structure LightLevel where
  lightLevelMean : UInt16
  lightSampleTime : UInt16
  deriving DecidableEq

/-- As the globals are initialised. -/
def LightLevel.init : LightLevel := ⟨0, 0⟩

/-- What `analogRead` gives. -/
abbrev Reading := Fin 1024

/-- The macro `abs`, of an `unsigned int`. -/
def arduinoAbs (x : UInt16) : UInt16 := if 0 < x then x else -x

/-- `(unsigned int) ( ((float) mean) * 0.90 + ((float) value) * 0.10 )`. -/
def blend (mean value : UInt16) : UInt16 :=
  UInt16.ofNat ⌊(mean.toNat : ℚ) * (90 / 100) + (value.toNat : ℚ) * (10 / 100)⌋₊

namespace LightLevel

/-- The call takes a reading. -/
def Samples (s : LightLevel) : Prop := ¬ s.lightSampleTime + 1 < photoSampleInterval

instance : DecidablePred Samples := fun _ => inferInstanceAs (Decidable (¬ _))

/-- `updateLightLevel`, at a pin where `analogRead` gives this. -/
def update (reading : Reading) (s : LightLevel) : LightLevel :=
  if s.lightSampleTime + 1 < photoSampleInterval then
    { s with lightSampleTime := s.lightSampleTime + 1 }
  else
    let value := UInt16.ofNat reading
    if value = s.lightLevelMean then { s with lightSampleTime := 0 }
    else
      -- both are unsigned, and so is the difference
      let diff := arduinoAbs (value - s.lightLevelMean)
      { lightLevelMean := if 100 < diff then value else blend s.lightLevelMean value
        lightSampleTime := 0 }

/-- The level behind these calls. -/
def after (readings : List Reading) : LightLevel :=
  readings.foldl (fun s reading => s.update reading) init

end LightLevel

end Firmware

end Realraum
