import Mathlib

/-!
# Block files

`BlockFileIOWriter` of `impl/io.cpp`: a file of blocks of one size.
-/

namespace Rvanns.Faiss

/-- `DIV_ROUND_UP` -/
def divRoundUp (x y : ℕ) : ℕ := x / y + if x % y ≠ 0 then 1 else 0

/-- `ROUND_UP` -/
def roundUp (x y : ℕ) : ℕ := (x / y + if x % y ≠ 0 then 1 else 0) * y

structure BlockFileIOWriter where
  blockSize : ℕ
  file : List UInt8
  blockBuf : List UInt8
  currentBlockId : ℕ
  blockBufOfs : ℕ
  ofs_lt : blockBufOfs < blockSize
  size_le : blockSize ≤ blockBuf.length

namespace BlockFileIOWriter

lemma le_roundUp (hx : 0 < x) (y : ℕ) : y ≤ roundUp x y := by
  have hpos : 0 < x / y + if x % y ≠ 0 then 1 else 0 := by
    split_ifs with h
    · exact Nat.succ_pos _
    · have hdiv := Nat.div_add_mod x y
      rcases Nat.eq_zero_or_pos (x / y) with h0 | h0
      · rw [h0] at hdiv
        omega
      · omega
  exact Nat.le_mul_of_pos_left y hpos

def new (blockSize headerSize : ℕ) (hblock : 0 < blockSize) (hheader : 0 < headerSize) :
    BlockFileIOWriter where
  blockSize := blockSize
  file := List.replicate (roundUp headerSize blockSize) 0
  blockBuf := List.replicate (roundUp headerSize blockSize) 0
  currentBlockId := 1
  blockBufOfs := 0
  ofs_lt := hblock
  size_le := by
    rw [List.length_replicate]
    exact le_roundUp hheader blockSize

variable (w : BlockFileIOWriter)

def tellg : ℕ := w.currentBlockId * w.blockSize + w.blockBufOfs

def flush : BlockFileIOWriter :=
  if w.blockBufOfs ≠ 0 then
    { w with
      file := w.file ++ w.blockBuf.take w.blockSize
      currentBlockId := w.currentBlockId + 1
      blockBufOfs := 0
      ofs_lt := Nat.zero_lt_of_lt w.ofs_lt }
  else w

/-- The buffer after a `memcpy` to its first free place. -/
def bufWith (piece : List UInt8) : List UInt8 :=
  w.blockBuf.take w.blockBufOfs ++ piece ++ w.blockBuf.drop (w.blockBufOfs + piece.length)

lemma size_le_bufWith (h : w.blockBufOfs + piece.length ≤ w.blockSize) :
    w.blockSize ≤ (w.bufWith piece).length := by
  have := w.size_le
  simp only [bufWith, List.length_append, List.length_take, List.length_drop]
  omega

def copy (piece : List UInt8) (h : w.blockBufOfs + piece.length ≤ w.blockSize) :
    BlockFileIOWriter :=
  if hfull : w.blockBufOfs + piece.length = w.blockSize then
    { w with
      file := w.file ++ (w.bufWith piece).take w.blockSize
      blockBuf := w.bufWith piece
      currentBlockId := w.currentBlockId + 1
      blockBufOfs := 0
      ofs_lt := Nat.zero_lt_of_lt w.ofs_lt
      size_le := w.size_le_bufWith h }
  else
    { w with
      blockBuf := w.bufWith piece
      blockBufOfs := w.blockBufOfs + piece.length
      ofs_lt := Nat.lt_of_le_of_ne h hfull
      size_le := w.size_le_bufWith h }

lemma copySize_le (bytes : List UInt8) :
    w.blockBufOfs + (bytes.take (w.blockSize - w.blockBufOfs)).length ≤ w.blockSize := by
  have := w.ofs_lt
  rw [List.length_take]
  omega

def writeLoop : ℕ → BlockFileIOWriter → List UInt8 → BlockFileIOWriter
  | 0, w, _ => w
  | fuel + 1, w, bytes =>
    if bytes = [] then w
    else writeLoop fuel (w.copy _ (w.copySize_le bytes)) (bytes.drop (w.blockSize - w.blockBufOfs))

def write (bytes : List UInt8) : BlockFileIOWriter :=
  if h : w.blockBufOfs + bytes.length ≤ w.blockSize then w.copy bytes h
  else writeLoop bytes.length w bytes

def flushAndWrite (bytes : List UInt8) : BlockFileIOWriter := w.flush.write bytes

def writeHeader (bytes : List UInt8) : Except String BlockFileIOWriter :=
  if w.blockSize < bytes.length then
    .error "header size should not larger than a block size"
  else .ok { w with file := bytes ++ w.file.drop bytes.length }

/-- The file that the destructor leaves. -/
def close : List UInt8 := w.flush.file

end BlockFileIOWriter

end Rvanns.Faiss
