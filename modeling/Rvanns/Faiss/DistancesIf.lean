import Rvanns.Cpp.Vector

/-!
# Processing the accepted elements in groups

`buffered_if` and `fvec_distance_ny_if` of `utils/distances_if.h`.
-/

namespace Rvanns.Faiss

open Cpp

variable {σ : Type}

/-- The array `saved_j` and `counter`. -/
structure Saved where
  savedJ : List ℕ
  counter : ℕ

namespace Saved

def save (saved : Saved) (j : ℕ) (isAcceptable : Bool) : Option Saved := do
  let savedJ ← wr saved.savedJ saved.counter j
  return ⟨savedJ, if isAcceptable then saved.counter + 1 else saved.counter⟩

def saveAll (pred : ℕ → Option (Option Bool)) : List ℕ → Saved → Option (Saved × Bool)
  | [], saved => some (saved, false)
  | j :: js, saved => do
    let outcome ← pred j
    match outcome with
    | none => return (saved, true)
    | some isAcceptable =>
      let saved ← saved.save j isAcceptable
      saveAll pred js saved

/-- Copies leftovers to the beginning of the buffer. -/
def copyLeftovers (n counterN : ℕ) (savedJ : List ℕ) : Option (List ℕ) :=
  (List.range n).foldlM (fun savedJ i => do
    let j ← savedJ[counterN + i]?
    wr savedJ i j) savedJ

/-- Processes the groups that are full. -/
def processGroups (n : ℕ) (processN : σ → List ℕ → Option σ) (saved : Saved) (s : σ) :
    Option (Saved × σ) :=
  if n ≤ saved.counter then do
    let counterN := saved.counter / n * n
    let s ← (List.range (counterN / n)).foldlM (fun s i => do
      let tmp ← readRange saved.savedJ (i * n) (i * n + n)
      processN s tmp) s
    let savedJ ← copyLeftovers n counterN saved.savedJ
    return (⟨savedJ, saved.counter - counterN⟩, s)
  else some (saved, s)

def processBlocks (n bufferSize : ℕ) (pred : ℕ → Option (Option Bool))
    (processN : σ → List ℕ → Option σ) : ℕ → ℕ → Saved → σ → Option (Saved × σ × Bool)
  | 0, _, saved, s => some (saved, s, false)
  | count + 1, j, saved, s => do
    let (saved, stop) ← saveAll pred (List.range' j bufferSize) saved
    if stop then return (saved, s, true)
    let (saved, s) ← processGroups n processN saved s
    processBlocks n bufferSize pred processN count (j + bufferSize) saved s

end Saved

def bufferedIf (n bufferSize ny : ℕ) (pred : ℕ → Option (Option Bool))
    (process1 : σ → ℕ → Option σ) (processN : σ → List ℕ → Option σ) (s : σ) : Option σ := do
  let nyBufferSize := ny / bufferSize * bufferSize
  let start : Saved := ⟨List.replicate (2 * bufferSize + n) 0, 0⟩
  let (saved, s, stop) ← Saved.processBlocks n bufferSize pred processN (ny / bufferSize) 0 start s
  let saved ← if stop then some saved
    else (Saved.saveAll pred (List.range' nyBufferSize (ny - nyBufferSize)) saved).map Prod.fst
  (List.range saved.counter).foldlM (fun s jj => do
    let j ← saved.savedJ[jj]?
    process1 s j) s

def DistancesIf.fvecDistanceNyIf {I F : Type} (n bufferSize ny : ℕ) (pred : ℕ → Option Bool)
    (distance1 : I → F) (distanceN : List I → List F) (remapper : ℕ → I) (apply : σ → F → ℕ → σ) :
    σ → Option σ :=
  bufferedIf n bufferSize ny (fun j => some (pred j))
    (fun s idx => some (apply s (distance1 (remapper idx)) idx))
    (fun s indices =>
      let dis := distanceN (indices.map remapper)
      some ((dis.zip indices).foldl (fun s p => apply s p.1 p.2) s))

end Rvanns.Faiss
