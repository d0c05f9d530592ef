import ReflectionError.Wire.Cursor

/-!
# ReflectionError.Options

How strictly payloads are read.
-/

namespace ReflectionError

structure Options where
  /-- Text that is not UTF-8 is refused; otherwise it is repaired. -/
  strictText : Bool := true
  /-- How deep groups may stand in each other. More than `maxNesting` counts as `maxNesting`. -/
  nestingLimit : Nat := 100
  /-- Payloads of more bytes are refused unread. -/
  sizeLimit : Option Nat := none
  deriving DecidableEq, Repr

def maxNesting : Nat := 1000

namespace Options

def lossy : Options := { strictText := false }

def withNestingLimit (o : Options) (limit : Nat) : Options := { o with nestingLimit := limit }

def withSizeLimit (o : Options) (size : Nat) : Options := { o with sizeLimit := some size }

def checkSize (o : Options) (size : Nat) : Except DecodeError Unit :=
  match o.sizeLimit with
  | some limit => if limit < size then .error (.messageTooLarge size limit) else .ok ()
  | none => .ok ()

/-- There is no size limit, or `size` is within it. -/
def Admits (o : Options) (size : Nat) : Prop := ∀ limit, o.sizeLimit = some limit → size ≤ limit

theorem admits_of_no_limit {o : Options} (h : o.sizeLimit = none) (size : Nat) : o.Admits size := by
  intro limit hl
  rw [h] at hl
  cases hl

theorem Admits.mono {o : Options} {size size' : Nat} (h : o.Admits size) (hs : size' ≤ size) :
    o.Admits size' :=
  fun limit hl => Nat.le_trans hs (h limit hl)

theorem checkSize_eq_ok_iff {o : Options} {size : Nat} :
    o.checkSize size = .ok () ↔ o.Admits size := by
  unfold checkSize Admits
  split
  · next limit hl =>
    split
    · next hs =>
      refine ⟨fun h => (nomatch h), fun h => ?_⟩
      exact absurd (h limit hl) (Nat.not_le.2 hs)
    · next hs =>
      refine ⟨fun _ limit' hl' => ?_, fun _ => rfl⟩
      obtain rfl : limit = limit' := Option.some.inj (hl.symm.trans hl')
      exact Nat.not_lt.1 hs
  · next hn =>
    exact ⟨fun _ limit hl => (nomatch hn.symm.trans hl), fun _ => rfl⟩

end Options
end ReflectionError
