import TftpReceiver.Text.Decimal

/-! The share of the declared size that has arrived, in whole percents. -/

namespace TftpReceiver

/-- `reported` holds what an observer was told, oldest first; it stays empty when
nobody observes. -/
structure Progress where
  declaredSize : Nat
  blockSize : Nat
  observed : Bool
  last : Option Nat := none
  reported : List Nat := []
  deriving DecidableEq, Repr, Inhabited

namespace Progress

/-- Every block counts as a full one; nothing is known without a declared size. -/
def percent? (progress : Progress) (blocks : Nat) : Option Nat :=
  if progress.declaredSize = 0 then none
  else some (min 100 (blocks * progress.blockSize * 100 / progress.declaredSize))

/-- Only a change is told. -/
def update (progress : Progress) (blocks : Nat) : Progress :=
  match progress.percent? blocks with
  | none => progress
  | some percent =>
    if progress.last = some percent then progress
    else
      { progress with
        last := some percent
        reported := if progress.observed then progress.reported ++ [percent]
          else progress.reported }

end Progress

end TftpReceiver
