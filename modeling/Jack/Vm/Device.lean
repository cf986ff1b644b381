import Jack.Vm.Instr

/-!
Writing a program to a sink, something that takes bytes. A sink may take a part of what it is given;
what it leaves is given to it again, and an attempt that takes nothing ends the writing.

A device is a sink with limited room, which takes what fits.
-/

namespace Jack

class Sink (σ : Type) where
  /-- One attempt: the number of bytes taken from the front of `bytes`. -/
  write (s : σ) (bytes : ByteArray) : Nat × σ
  flush (s : σ) : σ

/-- Why writing ends early. -/
inductive WriteError where
  /-- Nothing was taken of what is left. -/
  | writeZero
deriving DecidableEq, Repr

namespace Sink

variable {σ : Type} [Sink σ]

/-- Attempts until all is taken, or until one takes nothing. -/
def writeAll (s : σ) (bytes : ByteArray) : Except WriteError Unit × σ :=
  if bytes.size = 0 then (.ok (), s)
  else
    let (n, after) := write s bytes
    if n = 0 then (.error .writeZero, after)
    else writeAll after (bytes.extract n bytes.size)
termination_by bytes.size
decreasing_by simp only [ByteArray.size_extract]; omega

/-- Writes on, unless the writing ended before. -/
def andThen (wrote : Except WriteError Unit × σ) (next : σ → Except WriteError Unit × σ) :
    Except WriteError Unit × σ :=
  match wrote with
  | (.ok (), after) => next after
  | (.error e, after) => (.error e, after)

def writePieces (s : σ) : List String → Except WriteError Unit × σ
  | [] => (.ok (), s)
  | piece :: pieces => andThen (writeAll s piece.toUTF8) fun after => writePieces after pieces

/-- Writes a line for each instruction and flushes at the end. -/
def writeProgram (s : σ) : List Instr → Except WriteError Unit × σ
  | [] => (.ok (), flush s)
  | i :: code =>
    andThen (writePieces s (i.pieces ++ ["\n"])) fun after => writeProgram after code

end Sink

structure Device where
  /-- Bytes that still fit. -/
  room : Nat
  accepted : ByteArray
  flushed : Bool

namespace Device

def empty (room : Nat) : Device := ⟨room, .empty, false⟩

instance : Sink Device where
  write d bytes :=
    let n := min d.room bytes.size
    (n, { d with room := d.room - n, accepted := d.accepted ++ bytes.extract 0 n })
  flush d := { d with flushed := true }

end Device

end Jack
