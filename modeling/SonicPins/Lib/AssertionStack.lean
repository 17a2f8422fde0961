import SonicPins.Lib.Status

/-! An incremental solver's stack of assertions: a push opens a frame, an assertion goes to
the newest frame, a pop removes the newest frame with everything asserted in it. -/
namespace SonicPins.Lib

/-- The frames stand oldest first, and so do the assertions of a frame. -/
structure AssertionStack (φ : Type) where
  base : List φ
  frames : List (List φ) := []
  deriving DecidableEq,Repr

namespace AssertionStack
variable {φ : Type}

def push (s : AssertionStack φ) : AssertionStack φ := { s with frames := s.frames ++ [[]] }

def pop (s : AssertionStack φ) : AssertionStack φ := { s with frames := s.frames.dropLast }

def add (s : AssertionStack φ) (a : φ) : AssertionStack φ :=
  match s.frames.getLast? with
  | none => { s with base := s.base ++ [a] }
  | some top => { s with frames := s.frames.dropLast ++ [top ++ [a]] }

/-- Everything the next satisfiability check is about. -/
def assertions (s : AssertionStack φ) : List φ := s.base ++ s.frames.flatten

/-- Opens a frame that holds the given assertions. -/
def pushFrame (s : AssertionStack φ) (frame : List φ) : AssertionStack φ := { s with frames := s.frames ++ [frame] }

@[simp] theorem push_base (s : AssertionStack φ) : s.push.base = s.base := rfl
@[simp] theorem push_frames (s : AssertionStack φ) : s.push.frames = s.frames ++ [[]] := rfl
@[simp] theorem pop_base (s : AssertionStack φ) : s.pop.base = s.base := rfl
@[simp] theorem pop_frames (s : AssertionStack φ) : s.pop.frames = s.frames.dropLast := rfl
@[simp] theorem pushFrame_base (s : AssertionStack φ) (f : List φ) : (s.pushFrame f).base = s.base := rfl
@[simp] theorem pushFrame_frames (s : AssertionStack φ) (f : List φ) : (s.pushFrame f).frames = s.frames ++ [f] := rfl

theorem push_eq_pushFrame (s : AssertionStack φ) : s.push = s.pushFrame [] := rfl

@[simp] theorem add_pushFrame (s : AssertionStack φ) (f : List φ) (a : φ) : (s.pushFrame f).add a = s.pushFrame (f ++ [a]) := by
  simp [add,pushFrame]

/-- Removes the newest `n` frames. -/
def popFrames (n : Nat) (s : AssertionStack φ) : AssertionStack φ := { s with frames := s.frames.take (s.frames.length - n) }

@[simp] theorem popFrames_base (n : Nat) (s : AssertionStack φ) : (s.popFrames n).base = s.base := rfl
@[simp] theorem popFrames_frames (n : Nat) (s : AssertionStack φ) :
    (s.popFrames n).frames = s.frames.take (s.frames.length - n) := rfl

@[simp] theorem popFrames_zero (s : AssertionStack φ) : s.popFrames 0 = s := by simp [popFrames]

theorem popFrames_succ (n : Nat) (s : AssertionStack φ) : s.popFrames (n + 1) = s.pop.popFrames n := by
  have hlen : min (s.frames.length - 1 - n) (s.frames.length - 1) = s.frames.length - (n + 1) := by omega
  simp only [popFrames,pop,List.dropLast_eq_take,List.take_take,List.length_take]
  rw [← hlen]
  congr 2
  omega

end AssertionStack
end SonicPins.Lib
