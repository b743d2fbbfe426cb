import Rvanns.Cpp.WrapInt
import Rvanns.Faiss.BruteForce
import Rvanns.Faiss.DistancesIf
import Rvanns.Faiss.InvertedLists
import Rvanns.Knowhere.PrecomputedDistanceIterator

/-!
# Searching and iterating over inverted lists

`IndexIVF` of `IndexIVF.cpp`.
-/

namespace Rvanns.Faiss

open Cpp
open Knowhere (DistId)

inductive ScannerKind where
  | ivfFlat
  | ivfSQ
deriving DecidableEq, Repr

/-- An index without its lists.  The quantizer returns the lists nearest to a query with their
distances; `distance x listNo coarseDis` is the distance that a scanner computes for a code after
`set_query(x)` and `set_list(listNo, coarseDis)`. -/
structure IndexIVF (Q V F : Type) where
  nlist : ℕ
  ntotal : ℕ
  nprobe : ℕ
  isIp : Bool
  scanner : ScannerKind
  quantizer : Q → ℕ → List (ℤ × F)
  distance : Q → ℕ → F → V → F

def fvecDistanceNyIf {V σ : Type} (ny : ℕ) (isMember : ℕ → Bool) (entries : ℕ → Option (Entry V))
    (apply : σ → Entry V → σ) (s : σ) : Option σ :=
  bufferedIf 4 8 ny
    (fun j => do
      let entry ← entries j
      return some (isMember entry.id))
    (fun s j => do
      let entry ← entries j
      return apply s entry)
    (fun s js => do
      let group ← js.mapM entries
      return group.foldl apply s) s

namespace IndexIVF

variable {Q V F : Type} [LinearOrder F] [BoundedOrder F]

variable (index : IndexIVF Q V F)

def cmp : Cmp F := if index.isIp then CMin ⟨⊥, ⊤⟩ else CMax ⟨⊥, ⊤⟩

def applyEntry (k : ℕ) (dis : V → F) (s : ℕ × (ℕ → F × ℤ)) (entry : Entry V) : ℕ × (ℕ → F × ℤ) :=
  (match index.scanner with
    | .ivfFlat => s.1 + 1
    | .ivfSQ => s.1,
   if index.cmp.cmp (s.2 1).1 (dis entry.code) then
     heapReplaceTop index.cmp k s.2 (dis entry.code) entry.id
   else s.2)

def scanOneList (lists : InvertedLists V) (x : Q) (isMember : ℕ → Bool)
    (k : ℕ) (key : ℤ) (coarseDis : F) (heap : ℕ → F × ℤ) : Except Fault (ℕ × (ℕ → F × ℤ)) :=
  if key < 0 then return (0, heap)
  else if index.nlist ≤ key then throw (.thrown s!"Invalid key={key} nlist={index.nlist}")
  else
    let listNo := key.toNat
    if lists.listSize listNo = 0 then return (0, heap)
    else
      defined ((List.range (lists.getSegmentNum listNo)).foldlM (fun s segment =>
        fvecDistanceNyIf (lists.getSegmentSize listNo segment) isMember
          (lists.getEntries listNo (lists.getSegmentOffset listNo segment))
          (index.applyEntry k (index.distance x listNo coarseDis)) s) (0, heap))

def probeLoop (index : IndexIVF Q V F) (lists : InvertedLists V) (x : Q) (isMember : ℕ → Bool)
    (k : ℕ) (maxCodes : ℤ) (ensureTopkFull : Bool) :
    List (ℤ × F) → ℤ → (ℕ → F × ℤ) → Except Fault (ℕ → F × ℤ)
  | [], _, heap => return heap
  | (key, coarseDis) :: probes, nscan, heap => do
    let (scanned, heap) ← index.scanOneList lists x isMember k key coarseDis heap
    let nscan := nscan + scanned
    if maxCodes ≤ nscan ∧ (!ensureTopkFull ∨ k ≤ nscan) then return heap
    else probeLoop index lists x isMember k maxCodes ensureTopkFull probes nscan heap

structure SearchParameters where
  nprobe : ℕ
  maxCodes : ℕ
  ensureTopkFull : Bool
  isMember : ℕ → Bool

def search [Zero F] (lists : InvertedLists V) (x : Q) (k : ℕ)
    (params : SearchParameters) : Except Fault (List (F × ℤ)) := do
  if k = 0 then throw (.thrown "Error: 'k > 0' failed")
  let nprobe := min index.nlist params.nprobe
  if nprobe = 0 then throw (.thrown "Error: 'nprobe > 0' failed")
  -- `max_codes` is read as a signed number, and 0 means that there is no limit
  let maxCodes := wrapInt 64 params.maxCodes
  let maxCodes := if maxCodes = 0 then 2 ^ 63 - 1 else maxCodes
  let heap ← defined (heapHeapify index.cmp k (fun _ => none) (fun _ => none) 0 fun _ => (0, 0))
  let heap ← index.probeLoop lists x params.isMember k maxCodes params.ensureTopkFull
    (index.quantizer x nprobe) 0 heap
  return heapReorder index.cmp k heap

structure IVFIteratorWorkspace (Q F : Type) where
  queryData : Q
  backupCountThreshold : ℕ
  nextVisitCoarseListIdx : ℕ := 0
  coarse : List (ℤ × F)
  coarseListSizes : List ℕ

def largerListSize (largest : ℤ) (size : ℕ) : ℤ :=
  if largest % 2 ^ 64 < size then wrapInt 32 size else largest

def maxCoarseListSize (sizes : List ℕ) : ℤ := sizes.foldl largerListSize 0

def backupCountThreshold (nlist nprobe : ℕ) (sizes : List ℕ) : ℕ :=
  sizes.sum % 2 ^ 64 * min nlist nprobe % 2 ^ 64 / nlist

def distsMaxSize : ℤ := 2 ^ 59 - 1

def getIteratorWorkspace (lists : InvertedLists V) (x : Q) (nprobe : ℕ) :
    Except Fault (IVFIteratorWorkspace Q F) :=
  let coarseListSizes := (List.range index.nlist).map lists.listSize
  let nprobe := if nprobe ≠ 0 then nprobe else index.nprobe
  if index.nlist = 0 then throw .undefined
  else
    let threshold := backupCountThreshold index.nlist nprobe coarseListSizes
    if distsMaxSize < (maxCoarseListSize coarseListSizes + threshold) % 2 ^ 64 then
      throw (.thrown "vector::reserve")
    else
      return {
        queryData := x
        backupCountThreshold := threshold
        coarse := index.quantizer x index.nlist
        coarseListSizes := coarseListSizes }

def scanSegments (dis : V → F) (live : ℕ → InvertedLists V) (isMember : ℕ → Bool)
    (listNo maxCodes : ℕ) : ℕ → ℕ → ℕ → List (DistId F) → Option (List (DistId F))
  | 0, _, _, dists => some dists
  | count + 1, segment, scanCnt, dists => do
    let segmentSize := (live (2 + 3 * segment)).getSegmentSize listNo segment
    let shouldScanSize := min segmentSize (maxCodes - scanCnt)
    let scanCnt := scanCnt + shouldScanSize
    if shouldScanSize = 0 then return dists
    let offset := (live (3 + 3 * segment)).getSegmentOffset listNo segment
    let dists ← fvecDistanceNyIf shouldScanSize isMember
      ((live (4 + 3 * segment)).getEntries listNo offset)
      (fun dists entry => dists ++ [⟨entry.id, dis entry.code⟩]) dists
    scanSegments dis live isMember listNo maxCodes count (segment + 1) scanCnt dists

def visitList (live : ℕ → InvertedLists V) (isMember : ℕ → Bool)
    (workspace : IVFIteratorWorkspace Q F) (nextListIdx : ℕ) (dists : List (DistId F)) :
    Except Fault (List (DistId F)) := do
  let (key, coarseDis) ← defined workspace.coarse[nextListIdx]?
  let maxCodes ← defined (rd workspace.coarseListSizes key)
  if key < 0 then return dists
  if index.nlist ≤ key then throw (.thrown s!"Invalid list_no={key} nlist={index.nlist}")
  let listNo := key.toNat
  if (live 0).listSize listNo = 0 then return dists
  let segmentNum := (live 1).getSegmentNum listNo
  defined (scanSegments (index.distance workspace.queryData listNo coarseDis) live isMember listNo
    maxCodes segmentNum 0 0 dists)

def nextBatchLoop (index : IndexIVF Q V F) (live : ℕ → ℕ → InvertedLists V) (isMember : ℕ → Bool)
    (currentBackupCount : ℕ) : ℕ → IVFIteratorWorkspace Q F → List (DistId F) →
      Except Fault (List (DistId F) × IVFIteratorWorkspace Q F)
  | 0, workspace, dists => return (dists, workspace)
  | fuel + 1, workspace, dists => do
    let next := workspace.nextVisitCoarseListIdx
    if currentBackupCount + dists.length < workspace.backupCountThreshold ∧ next < index.nlist then
      let workspace := { workspace with nextVisitCoarseListIdx := next + 1 }
      let dists ← index.visitList (live next) isMember workspace next dists
      nextBatchLoop index live isMember currentBackupCount fuel workspace dists
    else return (dists, workspace)

def getIteratorNextBatch (live : ℕ → ℕ → InvertedLists V)
    (isMember : ℕ → Bool) (workspace : IVFIteratorWorkspace Q F) (currentBackupCount : ℕ) :
    Except Fault (List (DistId F) × IVFIteratorWorkspace Q F) :=
  index.nextBatchLoop live isMember currentBackupCount
    (index.nlist - workspace.nextVisitCoarseListIdx) workspace []

end IndexIVF

end Rvanns.Faiss
