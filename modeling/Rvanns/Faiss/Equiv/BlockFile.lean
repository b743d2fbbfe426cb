import Rvanns.Cpp.Segment
import Rvanns.Faiss.BlockFile

/-!
# What a block file holds

A writer stands for the bytes of its file followed by the pending part of its buffer.
-/

namespace Rvanns.Faiss

open Cpp List

lemma roundUp_add_of_le (hr : 0 < r) (hry : r ≤ y) : roundUp (m * y + r) y = m * y + y := by
  have hy : 0 < y := by omega
  rcases Nat.lt_or_eq_of_le hry with hlt | rfl
  · have hdiv : (m * y + r) / y = m := by
      rw [add_comm, Nat.add_mul_div_right _ _ hy, Nat.div_eq_of_lt hlt, zero_add]
    have hmod : (m * y + r) % y = r := by
      rw [add_comm, Nat.add_mul_mod_self_right, Nat.mod_eq_of_lt hlt]
    rw [roundUp, hdiv, if_pos (by omega), Nat.succ_mul]
  · rw [← Nat.succ_mul, roundUp, Nat.mul_div_cancel _ hy, if_neg (by simp), add_zero]

lemma roundUp_mul (m : ℕ) (hy : 0 < y) : roundUp (m * y) y = m * y := by
  rw [roundUp, Nat.mul_div_cancel _ hy, if_neg (by simp), add_zero]

lemma roundUp_lt (x : ℕ) (hy : 0 < y) : roundUp x y < x + y := by
  have hdiv := Nat.div_add_mod x y
  rw [roundUp, add_mul, mul_comm (x / y)]
  split_ifs
  · omega
  · omega

namespace BlockFileIOWriter

variable (w : BlockFileIOWriter)

def stream : List UInt8 := w.file ++ w.blockBuf.take w.blockBufOfs

/-- The file ends where the current block begins, so `tellg` tells the length of the stream. -/
def Aligned : Prop := w.file.length = w.currentBlockId * w.blockSize

/-- `w'` comes from `w` by writing: nothing that `w` stands for is moved. -/
structure Extends (w w' : BlockFileIOWriter) : Prop where
  stream : w.stream <+: w'.stream
  blockSize : w'.blockSize = w.blockSize
  aligned : w.Aligned → w'.Aligned

lemma Extends.refl : Extends w w := ⟨prefix_rfl, rfl, id⟩

lemma Extends.trans (h : Extends w₁ w₂) (h' : Extends w₂ w₃) : Extends w₁ w₃ :=
  ⟨h.stream.trans h'.stream, h'.blockSize.trans h.blockSize, fun ha => h'.aligned (h.aligned ha)⟩

lemma length_stream : w.stream.length = w.file.length + w.blockBufOfs := by
  have := w.ofs_lt
  have := w.size_le
  rw [stream, length_append, length_take]
  omega

variable {w}

lemma Aligned.tellg_eq (h : w.Aligned) : w.tellg = w.stream.length := by
  rw [length_stream, h, tellg]

@[simp] lemma blockBufOfs_flush : w.flush.blockBufOfs = 0 := by
  unfold flush
  split_ifs with h
  · rfl
  · exact not_not.mp h

@[simp] lemma blockSize_flush : w.flush.blockSize = w.blockSize := by
  unfold flush
  split_ifs <;> rfl

@[simp] lemma blockBuf_flush : w.flush.blockBuf = w.blockBuf := by
  unfold flush
  split_ifs <;> rfl

lemma stream_of_ofs_eq_zero (h : w.blockBufOfs = 0) : w.stream = w.file := by
  rw [stream, h, take_zero, append_nil]

lemma stream_flush : w.flush.stream = w.flush.file := stream_of_ofs_eq_zero blockBufOfs_flush

lemma extends_flush : Extends w w.flush := by
  refine ⟨?_, blockSize_flush, fun ha => ?_⟩
  · rw [stream_flush]
    unfold flush
    split_ifs with h
    · refine (prefix_append_right_inj w.file).mpr ?_
      exact take_prefix_take_left (le_of_lt w.ofs_lt)
    · rw [stream_of_ofs_eq_zero (not_not.mp h)]
  · unfold flush
    split_ifs with h
    · show (w.file ++ w.blockBuf.take w.blockSize).length = (w.currentBlockId + 1) * w.blockSize
      rw [length_append, ha, length_take, min_eq_left w.size_le, Nat.succ_mul]
    · exact ha

@[simp] lemma flush_flush : w.flush.flush = w.flush :=
  if_neg (not_not.mpr blockBufOfs_flush)

lemma Aligned.length_flush (h : w.Aligned) :
    w.flush.stream.length = roundUp w.stream.length w.blockSize := by
  have hpos : 0 < w.blockSize := Nat.zero_lt_of_lt w.ofs_lt
  have hflush := extends_flush.aligned h
  rw [stream_flush, hflush, length_stream, h, blockSize_flush]
  by_cases h0 : w.blockBufOfs = 0
  · have : w.flush = w := by rw [flush, if_neg (by simpa using h0)]
    rw [this, h0, add_zero, roundUp_mul _ hpos]
  · have : w.flush.currentBlockId = w.currentBlockId + 1 := by rw [flush, if_pos h0]
    rw [this, roundUp_add_of_le (pos_of_ne_zero h0) w.ofs_lt.le, Nat.succ_mul]

lemma Aligned.length_flush_le (h : w.Aligned) :
    w.flush.stream.length ≤ w.stream.length + w.blockSize := by
  rw [h.length_flush]
  exact (roundUp_lt _ (Nat.zero_lt_of_lt w.ofs_lt)).le

lemma take_bufWith (h : w.blockBufOfs + piece.length ≤ w.blockSize) :
    (w.bufWith piece).take (w.blockBufOfs + piece.length) = w.blockBuf.take w.blockBufOfs
      ++ piece := by
  have := w.size_le
  have hlen : (w.blockBuf.take w.blockBufOfs ++ piece).length = w.blockBufOfs + piece.length := by
    rw [length_append, length_take]
    omega
  rw [bufWith, ← hlen, take_left]

variable {piece bytes : List UInt8}

@[simp] lemma blockSize_copy (h : w.blockBufOfs + piece.length ≤ w.blockSize) :
    (w.copy piece h).blockSize = w.blockSize := by
  unfold copy
  split_ifs <;> rfl

lemma stream_copy (h : w.blockBufOfs + piece.length ≤ w.blockSize) :
    (w.copy piece h).stream = w.stream ++ piece := by
  have hpending : w.stream ++ piece =
      w.file ++ (w.bufWith piece).take (w.blockBufOfs + piece.length) := by
    rw [take_bufWith h, stream, append_assoc]
  rw [hpending]
  unfold copy
  split_ifs with hfull
  · show (w.file ++ (w.bufWith piece).take w.blockSize) ++ (w.bufWith piece).take 0 = _
    rw [take_zero, append_nil, ← hfull]
  · rfl

lemma Aligned.copy (ha : w.Aligned) (h : w.blockBufOfs + piece.length ≤ w.blockSize) :
    (w.copy piece h).Aligned := by
  have hsize := w.size_le_bufWith h
  unfold BlockFileIOWriter.copy
  split_ifs
  · show (w.file ++ (w.bufWith piece).take w.blockSize).length
    = (w.currentBlockId + 1) * w.blockSize
    rw [length_append, ha, length_take, min_eq_left hsize, Nat.succ_mul]
  · exact ha

lemma writeLoop_spec : ∀ {fuel : ℕ} {w : BlockFileIOWriter} {bytes : List UInt8},
    bytes.length ≤ fuel → (writeLoop fuel w bytes).stream = w.stream ++ bytes ∧
      (writeLoop fuel w bytes).blockSize = w.blockSize ∧
      (w.Aligned → (writeLoop fuel w bytes).Aligned)
  | 0, w, bytes, h => by
    obtain rfl : bytes = [] := length_eq_zero_iff.mp (by omega)
    exact ⟨(append_nil _).symm, rfl, id⟩
  | fuel + 1, w, bytes, h => by
    unfold writeLoop
    split_ifs with hnil
    · rw [hnil]
      exact ⟨(append_nil _).symm, rfl, id⟩
    · -- there is room for at least one byte, so the rest is shorter
      have hroom := w.ofs_lt
      have hpos := length_pos_of_ne_nil hnil
      have hrest : (bytes.drop (w.blockSize - w.blockBufOfs)).length ≤ fuel := by
        rw [length_drop]
        omega
      obtain ⟨hstream, hsize, haligned⟩ :=
        writeLoop_spec (w := w.copy _ (w.copySize_le bytes)) hrest
      refine ⟨?_, hsize.trans (blockSize_copy _), fun ha => haligned (ha.copy _)⟩
      rw [hstream, stream_copy, append_assoc, take_append_drop]

lemma stream_write : (w.write bytes).stream = w.stream ++ bytes := by
  unfold write
  split_ifs with h
  · exact stream_copy h
  · exact (writeLoop_spec le_rfl).1

@[simp] lemma blockSize_write : (w.write bytes).blockSize = w.blockSize := by
  unfold write
  split_ifs with h
  · exact blockSize_copy h
  · exact (writeLoop_spec le_rfl).2.1

lemma Aligned.write (ha : w.Aligned) : (w.write bytes).Aligned := by
  unfold BlockFileIOWriter.write
  split_ifs with h
  · exact ha.copy h
  · exact (writeLoop_spec le_rfl).2.2 ha

lemma extends_foldl {step : BlockFileIOWriter → α → BlockFileIOWriter}
    (h : ∀ w a, Extends w (step w a)) (l : List α) (w : BlockFileIOWriter) :
    Extends w (l.foldl step w) := by
  induction l generalizing w with
  | nil => exact Extends.refl w
  | cons a l ih => exact (h w a).trans (ih _)

lemma extends_write : Extends w (w.write bytes) := by
  refine ⟨?_, blockSize_write, Aligned.write⟩
  rw [stream_write]
  exact prefix_append _ _

lemma tellg_flush_of_le (h0 : w.blockBufOfs = 0) {w' : BlockFileIOWriter}
    (ha' : w'.Aligned) (hsize : w'.blockSize = w.blockSize)
    (hlt : w.tellg < w'.tellg) (hle : w'.tellg ≤ w.tellg + w.blockSize) :
    w'.flush.tellg = w.tellg + w.blockSize := by
  have htell : w.tellg = w.currentBlockId * w.blockSize := by rw [tellg, h0, add_zero]
  obtain ⟨r, hr⟩ := Nat.exists_eq_add_of_lt hlt
  rw [(extends_flush.aligned ha').tellg_eq, ha'.length_flush, ← ha'.tellg_eq, hsize, hr, htell,
    add_assoc]
  exact roundUp_add_of_le (Nat.succ_pos r) (by omega)

/-- **The whole buffer goes to the file.**  A flush after a write of at most one block adds the
bytes of the write and then what the buffer held behind them. -/
theorem flush_write_file (h0 : w.blockBufOfs = 0) (hpos : 0 < bytes.length)
    (hle : bytes.length ≤ w.blockSize) :
    (w.write bytes).flush.file = w.file ++
      (bytes ++ w.blockBuf.drop bytes.length).take w.blockSize := by
  have hbuf : w.bufWith bytes = bytes ++ w.blockBuf.drop bytes.length := by
    rw [bufWith, h0, take_zero, nil_append, zero_add]
  have hfit : w.blockBufOfs + bytes.length ≤ w.blockSize := by omega
  rw [write, dif_pos hfit, ← hbuf]
  unfold copy
  split_ifs with hfull
  · rw [flush, if_neg (by simp)]
  · rw [flush, if_pos (by show w.blockBufOfs + bytes.length ≠ 0; omega)]

lemma blockBuf_write (h0 : w.blockBufOfs = 0) (hle : bytes.length ≤ w.blockSize) :
    (w.write bytes).blockBuf = bytes ++ w.blockBuf.drop bytes.length := by
  have hbuf : w.bufWith bytes = bytes ++ w.blockBuf.drop bytes.length := by
    rw [bufWith, h0, take_zero, nil_append, zero_add]
  have hfit : w.blockBufOfs + bytes.length ≤ w.blockSize := by omega
  rw [write, dif_pos hfit, ← hbuf]
  unfold copy
  split_ifs <;> rfl

lemma writeHeader_eq_ok : w.writeHeader bytes = .ok w' ↔
      bytes.length ≤ w.blockSize ∧ { w with file := bytes ++ w.file.drop bytes.length } = w' := by
  unfold writeHeader
  split_ifs with h
  · simp [h]
  · simp [not_lt.mp h]

lemma close_of_writeHeader (h : w.writeHeader bytes = .ok w')
    (hle : bytes.length ≤ w.file.length) : w'.close = bytes ++ w.close.drop bytes.length := by
  obtain ⟨-, rfl⟩ := writeHeader_eq_ok.mp h
  unfold close flush
  split_ifs
  · rw [append_assoc, drop_append_of_le_length hle]
  · rfl

lemma aligned_new {blockSize headerSize : ℕ} (hblock : 0 < blockSize) (hheader : 0 < headerSize)
    (hle : headerSize ≤ blockSize) :
    (new blockSize headerSize hblock hheader).file = replicate blockSize 0 ∧
      (new blockSize headerSize hblock hheader).blockBuf = replicate blockSize 0 ∧
      (new blockSize headerSize hblock hheader).Aligned := by
  have hround : roundUp headerSize blockSize = blockSize := by
    simpa using roundUp_add_of_le (m := 0) hheader hle
  refine ⟨?_, ?_, ?_⟩
  · show replicate (roundUp headerSize blockSize) (0 : UInt8) = _
    rw [hround]
  · show replicate (roundUp headerSize blockSize) (0 : UInt8) = _
    rw [hround]
  · show (replicate (roundUp headerSize blockSize) (0 : UInt8)).length = 1 * blockSize
    rw [length_replicate, hround, one_mul]

/-- Writes and flushes (`none`), one after the other. -/
def run (ops : List (Option (List UInt8))) (w : BlockFileIOWriter) : BlockFileIOWriter :=
  ops.foldl (fun w op => op.elim w.flush w.write) w

lemma extends_run (ops : List (Option (List UInt8))) : Extends w (run ops w) := by
  refine extends_foldl (fun w op => ?_) ops w
  cases op with
  | none => exact extends_flush
  | some bytes => exact extends_write

/-- **`tellg` tells where a write goes**: the closed file has the bytes there, whatever is written
and flushed before and after. -/
theorem close_holdsAt_tellg {n m : ℕ} (hm : 0 < m) (hmn : m ≤ n)
    (before after : List (Option (List UInt8))) (bytes : List UInt8) :
    let w := run before (new n m (hm.trans_le hmn) hm)
    HoldsAt (run after (w.write bytes)).close w.tellg bytes := by
  intro w
  have ha : w.Aligned := (extends_run before).aligned (aligned_new _ hm hmn).2.2
  obtain ⟨rest, hrest⟩ := ((extends_run after).trans extends_flush).stream
  rw [HoldsAt, ha.tellg_eq, close, ← stream_flush, ← hrest, stream_write, append_assoc, drop_left]
  exact prefix_append bytes rest

theorem close_holdsAt_twoWrites :
    let w := run [some [1, 2], none] (new 4 3 (by decide) (by decide))
    HoldsAt (run [some [0]] (w.write [5, 6, 7, 8, 9])).close w.tellg [5, 6, 7, 8, 9] :=
  close_holdsAt_tellg (by decide) (by decide) _ _ _

end BlockFileIOWriter

end Rvanns.Faiss
