import Rvanns.Cpp.Returns
import Rvanns.Cpp.Sort

/-!
# The unit heap

The nodes that have not been placed yet, in one doubly linked list sorted by non-increasing key.
-/

namespace Rvanns.Faiss

open Cpp List

/-- `class RorderListElement`. -/
structure RorderListElement where
  key : ℕ
  prev : Option ℕ
  next : Option ℕ
deriving DecidableEq, Repr

/-- `class RorderHeadEnd`. -/
structure RorderHeadEnd where
  first : Option ℕ
  second : Option ℕ
deriving DecidableEq, Repr

/-- `class UnitHeap`. -/
structure UnitHeap where
  update : List (Option ℤ)
  linkedList : List RorderListElement
  header : List RorderHeadEnd
  top : Option ℕ
  heapsize : ℕ
deriving DecidableEq, Repr

namespace UnitHeap

variable (cells : List RorderListElement)

/-- `if (at >= 0) LinkedList[at].next = next;` -/
def setNext (at? next : Option ℕ) : Option (List RorderListElement) :=
  match at? with
  | none => some cells
  | some i => modifyAt cells i fun e => { e with next := next }

/-- `if (at >= 0) LinkedList[at].prev = prev;` -/
def setPrev (at? prev : Option ℕ) : Option (List RorderListElement) :=
  match at? with
  | none => some cells
  | some i => modifyAt cells i fun e => { e with prev := prev }

/-- The neighbours of a node are linked to each other. -/
def unlink (prev next : Option ℕ) :
    Option (List RorderListElement) := do
  let cells ← setNext cells prev next
  setPrev cells next prev

def leaveRun (run : RorderHeadEnd) (index : ℕ) (prev next : Option ℕ) : RorderHeadEnd :=
  if run.first = run.second then ⟨none, none⟩
  else if run.first = some index then { run with first := next }
  else if run.second = some index then { run with second := prev }
  else run

def joinRun (index : ℕ) (run : RorderHeadEnd) : RorderHeadEnd :=
  ⟨run.first.or (some index), some index⟩

/-- `UnitHeap(int size)`, for a positive size. -/
def create (size : ℕ) : UnitHeap where
  update := replicate size (some 0)
  linkedList := (range size).map fun i =>
    ⟨0, if i = 0 then none else some (i - 1), if i + 1 = size then none else some (i + 1)⟩
  header := (replicate (max (size / 16) 4) ⟨none, none⟩).set 0 ⟨some 0, some (size - 1)⟩
  top := some 0
  heapsize := size

variable (h : UnitHeap)

def deleteElement (index : ℕ) : Option UnitHeap := do
  let e ← h.linkedList[index]?
  let cells ← unlink h.linkedList e.prev e.next
  let header ← modifyAt h.header e.key (leaveRun · index e.prev e.next)
  let self ← cells[index]?
  let top := if h.top = some index then self.next else h.top
  let cells ← modifyAt cells index fun e => { e with prev := none, next := none }
  return { h with linkedList := cells, header := header, top := top }

def runTurn (newkey : ℤ) (p : ℕ) : Option (Turn ℕ ℕ) := do
  let run ← h.header[p]?
  let second ← run.second
  let e ← h.linkedList[second]?
  match e.next with
  | none => return .done p
  | some tmp =>
    let e' ← h.linkedList[tmp]?
    return if newkey ≤ e'.key then .next e'.key else .done p

def linkBehind (index psecond : ℕ) (tailnext : Option ℕ) :
    Option (List RorderListElement) := do
  let cells ← modifyAt cells index fun e => { e with prev := some psecond, next := tailnext }
  let cells ← modifyAt cells psecond fun e => { e with next := some index }
  setPrev cells tailnext (some index)

def moveTop (tmptop next key newkey p : ℕ) (u : ℤ) : Option UnitHeap := do
  let cells ← modifyAt h.linkedList next fun e => { e with prev := none }
  let run ← h.header[p]?
  let psecond ← run.second
  let e ← cells[psecond]?
  let tailnext := e.next
  let cells ← linkBehind cells tmptop psecond tailnext
  let header ← modifyAt h.header key fun run =>
    if run.first = run.second then ⟨none, none⟩ else { run with first := some next }
  let cells ← modifyAt cells tmptop fun e => { e with key := newkey }
  let update ← wr h.update tmptop (some (u.tdiv 2))
  let header ← modifyAt header newkey (joinRun tmptop)
  return { h with update := update, linkedList := cells, header := header, top := some next }

def decreaseTop : Option UnitHeap := do
  let tmptop ← h.top
  let e ← h.linkedList[tmptop]?
  match e.next with
  | none => return h
  | some next =>
    let u ← (← h.update[tmptop]?)
    let newkey : ℤ := e.key + u - u.tdiv 2
    let e' ← h.linkedList[next]?
    if newkey < e'.key then
      let p ← whileLoop (h.runTurn newkey) (h.header.length + 1) e.key
      -- a negative key is no index
      let newkey ← newkey.toNat?
      h.moveTop tmptop next e.key newkey p u
    else return h

/-- One turn of `do … while (top != tmptop)`. -/
def extractTurn : Option (Turn UnitHeap (ℕ × UnitHeap)) := do
  let tmptop ← h.top
  let u ← h.update[tmptop]?
  let h' ← (if ∃ x ∈ u, x < 0 then h.decreaseTop else some h)
  return if h'.top = some tmptop then .done (tmptop, h') else .next h'

def totalKey : ℕ := (h.linkedList.map RorderListElement.key).sum

/-- `ExtractMax`. -/
def extractMax : Option (ℕ × UnitHeap) := do
  let (tmptop, h) ← whileLoop extractTurn (h.totalKey + 1) h
  let h ← h.deleteElement tmptop
  return (tmptop, h)

/-- `update[index] = INT_MAX / 2;` -/
def mark (index : ℕ) : Option UnitHeap :=
  (wr h.update index none).map fun update => { h with update := update }

/-- `decrementKey`. -/
def decrementKey (index : ℕ) : Option UnitHeap := do
  let u ← h.update[index]?
  return { h with update := h.update.set index (u.map (· - 1)) }

def moveToFront (index head : ℕ) (prev next : Option ℕ) :
    Option (List RorderListElement) := do
  let i ← prev
  let cells ← unlink cells (some i) next
  let e ← cells[head]?
  let headprev := e.prev
  let cells ← modifyAt cells index fun e => { e with prev := headprev, next := some head }
  let cells ← modifyAt cells head fun e => { e with prev := some index }
  setNext cells headprev (some index)

/-- `if (key >= Header.size()) Header.resize(key + 5);` -/
def growTo (header : List RorderHeadEnd) (key : ℕ) : List RorderHeadEnd :=
  if header.length ≤ key then header ++ replicate (key + 5 - header.length) ⟨none, none⟩
  else header

/-- `IncrementKey`. -/
def incrementKey (index : ℕ) : Option UnitHeap := do
  let e ← h.linkedList[index]?
  let run ← h.header[e.key]?
  let head ← run.first
  let cells ←
    (if head = index then some h.linkedList
    else moveToFront h.linkedList index head e.prev e.next)
  let cells ← modifyAt cells index fun e => { e with key := e.key + 1 }
  let header ← modifyAt h.header e.key (leaveRun · index e.prev e.next)
  let key := e.key + 1
  let header ← modifyAt (growTo header key) key (joinRun index)
  let top ← h.top
  let atTop ← cells[top]?
  return { h with
    linkedList := cells
    header := header
    top := if atTop.key < key then some index else h.top }

def raise (w : ℕ) : Option UnitHeap := do
  let u ← h.update[w]?
  if u = some 0 then h.incrementKey w
  else return { h with update := h.update.set w (u.map (· + 1)) }

def linkTurn (tmp : List ℕ) (s : List RorderListElement × List RorderHeadEnd × ℕ) (i : ℕ) :
    Option (List RorderListElement × List RorderHeadEnd × ℕ) := do
  let (cells, header, key) := s
  let prev ← tmp[i - 1]?
  let v ← tmp[i]?
  let next ← tmp[i + 1]?
  let cells ← modifyAt cells v fun e => { e with prev := some prev, next := some next }
  let e ← cells[v]?
  if e.key = key then return (cells, header, key)
  else
    let header ← modifyAt header key fun run => { run with second := some prev }
    let header ← modifyAt header e.key fun run => { run with first := some v }
    return (cells, header, e.key)

def linkEnds (size front second back beforeBack key : ℕ) :
    Option (List RorderListElement × List RorderHeadEnd × ℕ) := do
  let cells ← modifyAt cells front fun e => { e with next := some second, prev := none }
  let cells ← modifyAt cells back fun e => { e with next := none, prev := some beforeBack }
  let header ← modifyAt (replicate size ⟨none, none⟩) key
    fun run => { run with first := some front }
  return (cells, header, key)

/-- The ends of the last run, or of the last two runs. -/
def closeRuns (header : List RorderHeadEnd) (key lastkey back beforeBack : ℕ) :
    Option (List RorderHeadEnd) :=
  if key = lastkey then modifyAt header key fun run => { run with second := some back }
  else do
    let header ← modifyAt header key fun run => { run with second := some beforeBack }
    wr header lastkey ⟨some back, some back⟩

/-- `ReConstruct`. -/
def reConstruct (S : StdSort ℕ) (h : UnitHeap) : Option UnitHeap := do
  let keyOf (i : ℕ) : ℕ := (h.linkedList[i]?.map RorderListElement.key).getD 0
  let tmp := S.run (fun a b => keyOf b < keyOf a) (range h.heapsize)
  let front ← tmp[0]?
  let second ← tmp[1]?
  let back ← tmp.getLast?
  let beforeBack ← tmp[tmp.length - 2]?
  let e ← h.linkedList[front]?
  let ends ← linkEnds h.linkedList (max (e.key + 1) h.header.length) front second back beforeBack
    e.key
  let (cells, header, key) ←
    (range (tmp.length - 2)).foldlM (fun s i => linkTurn tmp s (i + 1)) ends
  let last ← cells[back]?
  let header ← closeRuns header key last.key back beforeBack
  return { h with linkedList := cells, header := header, top := some front }

end UnitHeap

end Rvanns.Faiss
