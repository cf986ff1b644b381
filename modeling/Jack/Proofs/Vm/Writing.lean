import Jack.Proofs.Vm.Decoding
import Jack.Vm.Device

/-!
Programs written to sinks with limited room. Whatever the pieces in which a text is handed over, and
however little of a piece a sink takes at a time, what it has taken in the end is the front of the
text, up to where the room ends.
-/

namespace Jack

open Sink

/-- A sink that takes so many bytes in all. While there is room for some, it takes at least one of
the bytes it is given and never more than fit. -/
class LimitedSink (σ : Type) extends Sink σ where
  /-- Bytes that still fit. -/
  room : σ → Nat
  /-- All that was taken. -/
  accepted : σ → ByteArray
  flushed : σ → Bool
  write_le (s : σ) (bytes : ByteArray) : (write s bytes).1 ≤ min (room s) bytes.size
  write_pos (s : σ) (bytes : ByteArray) : 0 < min (room s) bytes.size → 0 < (write s bytes).1
  room_write (s : σ) (bytes : ByteArray) : room (write s bytes).2 = room s - (write s bytes).1
  accepted_write (s : σ) (bytes : ByteArray) :
    accepted (write s bytes).2 = accepted s ++ bytes.extract 0 (write s bytes).1
  flushed_write (s : σ) (bytes : ByteArray) : flushed (write s bytes).2 = flushed s
  room_flush (s : σ) : room (flush s) = room s
  accepted_flush (s : σ) : accepted (flush s) = accepted s
  flushed_flush (s : σ) : flushed (flush s) = true

/-- A device takes all that fits. -/
instance : LimitedSink Device where
  room := Device.room
  accepted := Device.accepted
  flushed := Device.flushed
  write_le _ _ := Nat.le_refl _
  write_pos _ _ h := h
  room_write _ _ := rfl
  accepted_write _ _ := rfl
  flushed_write _ _ := rfl
  room_flush _ := rfl
  accepted_flush _ := rfl
  flushed_flush _ := rfl

theorem toUTF8_append (s t : String) : (s ++ t).toUTF8 = s.toUTF8 ++ t.toUTF8 :=
  String.toByteArray_append

theorem extract_zero_zero (bytes : ByteArray) : bytes.extract 0 0 = .empty :=
  ByteArray.extract_eq_empty_iff.mpr (Nat.min_le_left _ _)

theorem extract_zero_of_size_le {bytes : ByteArray} {n : Nat} (h : bytes.size ≤ n) :
    bytes.extract 0 n = bytes := by
  have hrest : bytes.extract bytes.size n = .empty :=
    ByteArray.extract_eq_empty_iff.mpr (Nat.min_le_right _ _)
  rw [ByteArray.extract_eq_extract_append_extract bytes.size (Nat.zero_le _) h, hrest,
    ByteArray.append_empty, ByteArray.extract_zero_size]

namespace LimitedSink

variable {σ : Type} [LimitedSink σ]

/-- The bytes are written to the sink `s`: all of them if they fit, and else those that fit. `done`
tells whether it has been flushed once all are written. -/
inductive Writes (s : σ) (bytes : ByteArray) (done : Bool) : Except WriteError Unit × σ → Prop
  | all {after : σ} : bytes.size ≤ room s → room after = room s - bytes.size →
      accepted after = accepted s ++ bytes → flushed after = done →
      Writes s bytes done (.ok (), after)
  | front {after : σ} : room s < bytes.size →
      accepted after = accepted s ++ bytes.extract 0 (room s) → flushed after = flushed s →
      Writes s bytes done (.error .writeZero, after)

namespace Writes

variable {s after : σ} {bytes bytes' : ByteArray} {done : Bool}
  {result : Except WriteError Unit × σ}

theorem of_empty (s : σ) : Writes s .empty (flushed s) (.ok (), s) :=
  .all (Nat.zero_le _) rfl (by simp) rfl

/-- Behind bytes that fit, what is written is written behind them. -/
theorem append (h : Writes s bytes (flushed s) (.ok (), after))
    (h' : Writes after bytes' done result) : Writes s (bytes ++ bytes') done result := by
  cases h with
  | all hsize hroom haccepted hflushed =>
    cases h' with
    | all hsize' hroom' haccepted' hflushed' =>
      refine .all ?_ ?_ ?_ hflushed'
      · rw [ByteArray.size_append]
        omega
      · rw [ByteArray.size_append]
        omega
      · rw [haccepted', haccepted, ByteArray.append_assoc]
    | front hsize' haccepted' hflushed' =>
      refine .front ?_ ?_ (hflushed'.trans hflushed)
      · rw [ByteArray.size_append]
        omega
      · have hfront : (bytes ++ bytes').extract 0 (room s) =
            bytes ++ bytes'.extract 0 (room after) := by
          rw [ByteArray.extract_append, extract_zero_of_size_le hsize, Nat.zero_sub, hroom]
        rw [haccepted', haccepted, hfront, ByteArray.append_assoc]

/-- Once the room has ended, it does not matter what would have come behind. -/
theorem append_of_error {e : WriteError} (h : Writes s bytes (flushed s) (.error e, after))
    (bytes' : ByteArray) : Writes s (bytes ++ bytes') done (.error e, after) := by
  cases h with
  | front hsize haccepted hflushed =>
    refine .front ?_ ?_ hflushed
    · rw [ByteArray.size_append]
      omega
    · have hfront : (bytes ++ bytes').extract 0 (room s) = bytes.extract 0 (room s) := by
        rw [ByteArray.extract_append, Nat.sub_eq_zero_of_le hsize.le, Nat.zero_sub,
          extract_zero_zero, ByteArray.append_empty]
      rw [haccepted, hfront]

/-- One writing after another. -/
theorem andThen {next : σ → Except WriteError Unit × σ} (h : Writes s bytes (flushed s) result)
    (h' : ∀ after, flushed after = flushed s → Writes after bytes' done (next after)) :
    Writes s (bytes ++ bytes') done (Sink.andThen result next) := by
  cases h with
  | all hsize hroom haccepted hflushed =>
    exact append (.all hsize hroom haccepted hflushed) (h' _ hflushed)
  | front hsize haccepted hflushed =>
    exact append_of_error (.front hsize haccepted hflushed) bytes'

end Writes

/-- What one attempt takes is written. -/
theorem writes_write (s : σ) (bytes : ByteArray) :
    Writes s (bytes.extract 0 (write s bytes).1) (flushed s) (.ok (), (write s bytes).2) := by
  have hle := write_le s bytes
  have hsize : (bytes.extract 0 (write s bytes).1).size = (write s bytes).1 := by
    rw [ByteArray.size_extract]
    omega
  refine .all ?_ ?_ (accepted_write s bytes) (flushed_write s bytes)
  · omega
  · rw [room_write, hsize]

/-- An attempt that takes nothing of some bytes shows that the room has ended. -/
theorem room_eq_zero {s : σ} {bytes : ByteArray} (hbytes : bytes.size ≠ 0)
    (h : (write s bytes).1 = 0) : room s = 0 := by
  have hpos := write_pos s bytes
  omega

theorem writes_writeAll (s : σ) (bytes : ByteArray) :
    Writes s bytes (flushed s) (writeAll s bytes) := by
  -- Induction over the attempts: each one takes a front of what the attempts before it left.
  induction s, bytes using writeAll.induct with
  | case1 s bytes hbytes =>
    rw [writeAll, if_pos hbytes, ByteArray.size_eq_zero_iff.mp hbytes]
    exact .of_empty s
  | case2 s bytes hbytes after hwrite =>
    have hroom : room s = 0 := room_eq_zero hbytes (congrArg Prod.fst hwrite)
    have haccepted := accepted_write s bytes
    have hflushed := flushed_write s bytes
    rw [hwrite] at haccepted hflushed
    rw [writeAll, if_neg hbytes, hwrite]
    refine .front (by omega) ?_ hflushed
    rw [hroom]
    exact haccepted
  | case3 s bytes hbytes n after hwrite hn ih =>
    have htaken := writes_write s bytes
    have hle := write_le s bytes
    have hflushed := flushed_write s bytes
    rw [hwrite] at htaken hle hflushed
    have hsplit : bytes = bytes.extract 0 n ++ bytes.extract n bytes.size := by
      rw [← ByteArray.extract_eq_extract_append_extract n (Nat.zero_le _) (by omega),
        ByteArray.extract_zero_size]
    have hrest := htaken.append (hflushed ▸ ih)
    rw [← hsplit] at hrest
    rw [writeAll, if_neg hbytes, hwrite]
    simpa only [if_neg hn] using hrest

theorem writes_writePieces (s : σ) (pieces : List String) :
    Writes s (String.join pieces).toUTF8 (flushed s) (writePieces s pieces) := by
  induction pieces generalizing s with
  | nil => exact .of_empty s
  | cons piece pieces ih =>
    rw [String.join_cons, toUTF8_append]
    exact (writes_writeAll s piece.toUTF8).andThen fun after hflushed => hflushed ▸ ih after

theorem writes_line (s : σ) (i : Instr) :
    Writes s (i.text ++ "\n").toUTF8 (flushed s) (writePieces s (i.pieces ++ ["\n"])) := by
  have hpieces := writes_writePieces s (i.pieces ++ ["\n"])
  rwa [String.join_append] at hpieces

theorem writes_writeProgram (s : σ) (code : List Instr) :
    Writes s (render code).toUTF8 true (writeProgram s code) := by
  rw [render_eq_join]
  induction code generalizing s with
  | nil =>
    refine .all (Nat.zero_le _) (room_flush s) ?_ (flushed_flush s)
    rw [accepted_flush]
    exact ByteArray.append_empty.symm
  | cons i code ih =>
    rw [List.map_cons, String.join_cons, toUTF8_append]
    exact (writes_line s i).andThen fun after _ => ih after

/-- Writing a program leaves the sink with the front of its text, up to the end of the room. It
succeeds, with the sink flushed, exactly if the whole text fits; else an attempt that took nothing
ended it, and the sink has not been flushed. -/
theorem writeProgram_takes_front (s : σ) (code : List Instr) :
    let bytes := (render code).toUTF8
    ∃ after, accepted after = accepted s ++ bytes.extract 0 (min (room s) bytes.size) ∧
      ((bytes.size ≤ room s ∧ writeProgram s code = (.ok (), after) ∧ flushed after = true) ∨
        (room s < bytes.size ∧ writeProgram s code = (.error .writeZero, after) ∧
          flushed after = flushed s)) := by
  intro bytes
  have hwrites : Writes s bytes true (writeProgram s code) := writes_writeProgram s code
  generalize writeProgram s code = wrote at hwrites
  cases hwrites with
  | @all after hsize _ haccepted hflushed =>
    have hall : bytes.extract 0 (min (room s) bytes.size) = bytes := by
      rw [Nat.min_eq_right hsize, ByteArray.extract_zero_size]
    exact ⟨after, by rw [hall, haccepted], .inl ⟨hsize, rfl, hflushed⟩⟩
  | @front after hsize haccepted hflushed =>
    rw [Nat.min_eq_left hsize.le]
    exact ⟨after, haccepted, .inr ⟨hsize, rfl, hflushed⟩⟩

/-- A device that is full in the middle of a piece. -/
theorem writeProgram_takes_front_of_line :
    let code : List Instr := [.push .constant 7, .ret]
    ∃ after, writeProgram (Device.empty 18) code = (.error .writeZero, after) ∧
      after.accepted = "push constant 7\nre".toUTF8 ∧ after.flushed = false := by
  intro code
  have hsize : (render code).toUTF8.size = 23 := by decide +kernel
  have hfront : (render code).toUTF8.extract 0 18 = "push constant 7\nre".toUTF8 := by
    decide +kernel
  obtain ⟨after, haccepted, ⟨hfits, -⟩ | ⟨-, hwrite, hflushed⟩⟩ :=
    writeProgram_takes_front (Device.empty 18) code
  · exact absurd (hsize ▸ hfits : 23 ≤ 18) (by decide)
  · rw [hsize] at haccepted
    exact ⟨after, hwrite, haccepted.trans (hfront ▸ ByteArray.empty_append), hflushed⟩

end LimitedSink

end Jack
