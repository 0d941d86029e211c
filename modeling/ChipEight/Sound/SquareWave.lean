import ChipEight.Binary32.Arithmetic

/-!
# Square wave

A tone that is at its volume during the first half of each period and at the
opposite during the second.  The phase runs from zero to one.
-/

namespace ChipEight

/-- A tone: how far the phase moves with each sample, the phase and the
volume. -/
structure SquareWave where
  increment : Binary32
  phase : Binary32
  volume : Binary32
deriving DecidableEq, Repr

namespace SquareWave

/-- The present sample. -/
def sample (wave : SquareWave) : Binary32 :=
  if wave.phase.lt .half then wave.volume else wave.volume.negate

/-- Move on by one sample. -/
def advance (wave : SquareWave) : SquareWave :=
  { wave with phase := (wave.phase.add wave.increment).modOne }

/-- Play some samples after others already played. -/
def playOnto (wave : SquareWave) (played : Array Binary32) :
    Nat → Array Binary32 × SquareWave
  | 0 => (played, wave)
  | n + 1 => wave.advance.playOnto (played.push wave.sample) n

/-- Play some samples. -/
def play (wave : SquareWave) (count : Nat) : List Binary32 × SquareWave :=
  let (played, next) := wave.playOnto #[] count
  (played.toList, next)

/-! ## Runs of samples -/

/-- Put a sample in front of runs of equal samples. -/
def consRun (sample : Binary32) :
    List (Binary32 × Nat) → List (Binary32 × Nat)
  | [] => [(sample, 1)]
  | (first, count) :: rest =>
    if sample = first then (first, count + 1) :: rest
    else (sample, 1) :: (first, count) :: rest

/-- Samples as runs of equal ones, each with its length. -/
def runs (samples : List Binary32) : List (Binary32 × Nat) :=
  samples.foldr consRun []

end SquareWave

end ChipEight
