import Rvanns.Faiss.Equiv.IndexHNSWSQ
import Rvanns.Knowhere.HnswSqNode

/-!
# Correctness of HNSW-SQ nodes

Along every history of successful calls, each node represents its entry in the ledger.
-/

namespace Rvanns.Knowhere

open Cpp Faiss List Option FaissNode

/-! ### A ledger that follows a history of calls without any index -/

structure Held (V : Type) where
  rows : List (List V)
  laidOut : Bool

structure Ledger (V : Type) where
  nodes : ℕ → Option (Held V)
  binarySets : ℕ → Option (Held V)

namespace Ledger

variable {V : Type}

def init : Ledger V := ⟨fun _ => none, fun _ => none⟩

def setNode (l : Ledger V) (i : ℕ) (held : Option (Held V)) : Ledger V :=
  { l with nodes := Function.update l.nodes i held }

def step (l : Ledger V) : Call V → Ledger V
  | .train i _ _ => l.setNode i (some ⟨[], false⟩)
  | .add i ds =>
    l.setNode i ((l.nodes i).map fun held => { held with rows := held.rows ++ ds.rows })
  | .build i ds cfg =>
    l.setNode i (some ⟨ds.rows, strToLower cfg.graphLayout ≠ "unordered"⟩)
  | .serialize i j => { l with binarySets := Function.update l.binarySets j (l.nodes i) }
  | .deserialize i j => l.setNode i (l.binarySets j)

def run (l : Ledger V) (calls : List (Call V)) : Ledger V := calls.foldl step l

end Ledger

namespace HnswSqNode

variable {V D R : Type} (B : Backend V D R)

structure Unordered (node : HnswSqNode V D R) (ix : HnswSqIndex V D) (rows : List (List V)) :
    Prop where
  labels : node.labels = []
  indexRowsSum : node.indexRowsSum = []
  labelToInternalOffset : node.labelToInternalOffset = []
  codeRow : ∀ (e : ℕ) row, rows[e]? = some row →
    ix.codeRow B e = some (B.encode ix.storage.sq row)

structure LaidOut (node : HnswSqNode V D R) (ix : HnswSqIndex V D) (rows : List (List V))
    (perm : List ℕ) : Prop where
  labels : node.labels = [perm]
  bijection : IsNumbering perm rows.length
  indexRowsSum : node.indexRowsSum = [0, rows.length]
  inverse : ∀ i e : ℕ, node.labelToInternalOffset[e]? = some i ↔ perm[i]? = some e
  codeRow : ∀ (i e : ℕ) row, perm[i]? = some e → rows[e]? = some row →
    ix.codeRow B i = some (B.encode ix.storage.sq row)

def Consistent (node : HnswSqNode V D R) : Option (Held V) → Prop
  | none => node.toFaissNode = FaissNode.init
  | some held => ∃ ix : SqIndex V D R, node.indexes = [some ix]
      ∧ node.count = held.rows.length
      ∧ if held.laidOut then ∃ perm, node.LaidOut B ix.base held.rows perm
        else node.Unordered B ix.base held.rows

inductive Represents (node : HnswSqNode V D R) : Option (Held V) → Prop
  | untrained (h : node.toFaissNode = FaissNode.init) : Represents node none
  | unordered {ix : SqIndex V D R} {rows : List (List V)}
      (tables : node.toFaissNode = ⟨[some ix], [], [], [], []⟩) (holds : ix.Holds B rows)
      (norms : ix.base.HasNorms) : Represents node (some ⟨rows, false⟩)
  | laidOut {ix : SqIndex V D R} {rows : List (List V)} {perm : List ℕ}
      (tables : node.toFaissNode = ⟨[some ix], [perm], [0, rows.length],
        (range rows.length).map perm.idxOf, []⟩)
      (numbering : IsNumbering perm rows.length) (small : rows.length < 2 ^ 32)
      (holds : ix.Holds B (perm.map (rows.getD · []))) : Represents node (some ⟨rows, true⟩)

variable {B} {node node' : HnswSqNode V D R} {ds : DataSet V} {cfg : FaissHnswSqConfig}

/-! ### Train -/

section Train

variable [Zero V] [One V]

lemma holds_untrainedIndex {dataFormat : DataFormat} {dim : ℕ} {metric : MetricType}
    {sqType : QuantizerType} {ix : SqIndex V D R}
    (h : untrainedIndex B dataFormat dim cfg metric sqType = .ok ix) :
    ix.Holds B [] ∧ ix.base.HasNorms := by
  have hnew := HnswSqIndex.holds_new (B := B) dim sqType cfg.m metric
    (isMetricType cfg.metricType "COSINE") cfg.efConstruction
  -- a refine index is put on top of the new index
  have hrefine : ∀ r, (SqIndex.newRefine B (HnswSqIndex.new B dim sqType cfg.m metric
      (isMetricType cfg.metricType "COSINE") cfg.efConstruction) r).Holds B [] :=
    fun r => ⟨hnew.1, rfl⟩
  unfold untrainedIndex at h
  split at h
  next refineType _ _ =>
    obtain ⟨isFp32Flat, -, h⟩ := bind_eq_ok.mp h
    obtain ⟨-, -, h⟩ := bind_eq_ok.mp h
    split_ifs at h
    · cases h
      exact ⟨hrefine _, hnew.2⟩
    · split at h
      · cases h
      · cases h
        exact ⟨hrefine _, hnew.2⟩
  next =>
    cases h
    exact ⟨⟨hnew.1, rfl⟩, hnew.2⟩

lemma represents_of_train (h : node.train B ds cfg = .ok node') :
    Represents B node' (some ⟨[], false⟩) := by
  unfold train at h
  cases hmetric : str2FaissMetricType cfg.metricType with
  | none => simp [hmetric, refuse] at h
  | some metric =>
    cases hsq : getSqQuantizerType cfg.sqType with
    | none => simp [hmetric, hsq, refuse] at h
    | some sqType =>
      cases hindex : untrainedIndex B node.dataFormat ds.dim cfg metric sqType with
      | error what => simp [hmetric, hsq, hindex, refuse] at h
      | ok ix =>
        obtain ⟨hholds, hnorms⟩ := holds_untrainedIndex hindex
        cases htrain : ix.train B ds.rows with
        | error fault => cases fault <;> simp [hmetric, hsq, hindex, htrain, ofFault, refuse] at h
        | ok trained =>
          obtain ⟨hholds', hnorms'⟩ := hholds.train hnorms htrain
          obtain rfl : _ = node' := by simpa [hmetric, hsq, hindex, htrain] using h
          exact .unordered rfl hholds' hnorms'

lemma tables_after_train (h : node' ∈ (node.train B ds cfg).after) :
    node'.labels = [] ∧ node'.indexRowsSum = [] ∧ node'.labelToInternalOffset = [] := by
  unfold train at h
  -- a refusal leaves the cleared node, a success puts one index in it
  have hcleared : node' ∈ some (init node.dataFormat) →
      node'.labels = [] ∧ node'.indexRowsSum = [] ∧ node'.labelToInternalOffset = [] := by
    rintro ⟨⟩
    exact ⟨rfl, rfl, rfl⟩
  split at h
  · exact hcleared h
  split at h
  · exact hcleared h
  split at h
  · exact hcleared h
  split at h
  next fault _ =>
    cases fault with
    | thrown msg => exact hcleared h
    | undefined => cases h
  next =>
    cases h
    exact ⟨rfl, rfl, rfl⟩

end Train

/-! ### Add -/

lemma holds_addToIndex {ix index' : SqIndex V D R} {rows : List (List V)}
    {dataFormat : DataFormat} (hx : ix.Holds B rows) (hn : ix.base.HasNorms)
    (h : addToIndex B ix ds dataFormat = .ok index') :
    index'.Holds B (rows ++ ds.rows) ∧ index'.base.HasNorms := by
  have hpieces : (range ((ds.rows.length + nTmpRows - 1) / nTmpRows)).foldlM
        (fun ix k => ix.add B ((ds.rows.drop (k * nTmpRows)).take nTmpRows)) ix
        = .ok index' →
      index'.Holds B (rows ++ ds.rows) ∧ index'.base.HasNorms := by
    intro h
    -- after `k` pieces the first `4096 k` rows are in
    have hloop := foldlM_range_eq_ok (P := fun k (ix : SqIndex V D R) =>
        ix.Holds B (rows ++ ds.rows.take (k * nTmpRows)) ∧ ix.base.HasNorms)
      (fun k _ t t' ht hadd => by
        obtain ⟨hholds, hnorms⟩ := ht.1.add ht.2 hadd
        rw [append_assoc, ← take_add, ← Nat.succ_mul] at hholds
        exact ⟨hholds, hnorms⟩)
      (by simpa using ⟨hx, hn⟩) h
    rwa [take_of_length_le] at hloop
    have hdiv := Nat.lt_div_mul_add (a := ds.rows.length + nTmpRows - 1) (b := nTmpRows)
      (by decide)
    omega
  cases dataFormat with
  | fp32 => exact hx.add hn h
  | fp16 => exact hpieces h
  | bf16 => exact hpieces h
  | int8 => exact hpieces h

lemma Represents.add (hr : Represents B node held) (h : node.add B ds = .ok node') :
    Represents B node' (held.map fun held => { held with rows := held.rows ++ ds.rows }) := by
  unfold HnswSqNode.add at h
  cases hr with
  | untrained htables => simp [htables, FaissNode.init, FaissNode.isIndexEmpty, refuse] at h
  | @unordered ix rows htables hholds hnorms =>
    rw [htables] at h
    cases hadd : addToIndex B ix ds node.dataFormat with
    | error fault => cases fault <;> simp [isIndexEmpty, hadd, ofFault, refuse] at h
    | ok index' =>
      obtain ⟨hholds', hnorms'⟩ := holds_addToIndex hholds hnorms hadd
      obtain rfl : _ = node' := by simpa [isIndexEmpty, hadd] using h
      exact .unordered rfl hholds' hnorms'
  | laidOut htables => simp [htables, isIndexEmpty, refuse] at h

lemma Represents.add_laidOut (hr : Represents B node (some held))
    (hl : held.laidOut = true) (ds : DataSet V) :
    node.add B ds = refuse .invalidArgs
      "Can not add data after a post-build HNSW layout pass." (some node) := by
  cases hr with
  | unordered => cases hl
  | laidOut htables => simp [HnswSqNode.add, htables, isIndexEmpty]

/-! ### Build -/

lemma invertPermutation_eq (hp : IsNumbering perm n) :
    invertPermutation n perm = some ((range n).map perm.idxOf) := by
  -- after `i` turns, the first `i` old ids are marked and have got their new ids
  have hloop := Returns.foldlM_range (f := fun (t : List Bool × List ℕ) newId => do
      let oldId ← perm[newId]?
      if t.1[oldId]? = some false then some (t.1.set oldId true, t.2.set oldId newId) else none)
    (P := fun i t => t = (scattered perm n (fun _ => true) false i, scattered perm n id 0 i)) n
    (fun i hi t ht => by
      subst ht
      have hnew : ¬ perm.idxOf (perm.getD i 0) < i := by rw [hp.idxOf_getD hi]; omega
      refine .of_eq (a := (scattered perm n (fun _ => true) false (i + 1),
        scattered perm n id 0 (i + 1))) ?_ rfl
      rw [hp.getElem?_eq hi]
      simp only [some_bind, getElem?_scattered (hp.getD_lt hi), if_neg hnew, if_true]
      rw [← hp.scattered_succ hi, ← hp.scattered_succ hi]
      rfl)
    (s := (replicate n false, replicate n 0)) (by rw [scattered_zero, scattered_zero])
  obtain ⟨t, ht, rfl⟩ := hloop
  unfold invertPermutation
  rw [ht]
  exact congrArg some hp.scattered_self

section Layout

variable {S : StdSort ℕ} {F : Type}
  [LinearOrder F] [Zero F] [One F] [Add F] [Sub F] [Mul F] [Div F] [NatCast F]

lemma Represents.applyGraphLayout
    (hr : Represents B node (some ⟨rows, false⟩)) (hlayout : layout ≠ "unordered")
    (h : node.applyGraphLayout B S F layout = .ok node') :
    Represents B node' (some ⟨rows, true⟩) := by
  unfold HnswSqNode.applyGraphLayout at h
  rw [if_neg hlayout] at h
  cases hr with
  | @unordered ix _ htables hholds hnorms =>
    rw [htables] at h
    cases ix with
    | refine info base refineIndex kFactor => cases h
    | hnsw x =>
      cases hrun : x.reorder B S F layout with
      | error fault => cases fault <;> simp [hrun, ofFault, refuse] at h
      | ok x' =>
        obtain ⟨hp, hx', -⟩ := hholds.base.reorder hrun
        have hcount : x'.info.ntotal = rows.length := by rw [hx'.ntotal, length_map, hp.length]
        simp only [hrun, hcount, hp.length, ne_eq, not_true_eq_false, false_or,
          invertPermutation_eq hp] at h
        split_ifs at h with hbig
        · cases h
        · cases h
          have hindex : (SqIndex.hnsw x' : SqIndex V D R).Holds B _ := ⟨hx', hx'.ntotal⟩
          exact .laidOut rfl hp (by omega) hindex

lemma represents_of_build [Zero V] [One V] (h : node.build B S F ds cfg = .ok node') :
    Represents B node' (some ⟨ds.rows, strToLower cfg.graphLayout ≠ "unordered"⟩) := by
  obtain ⟨trained, htrain, h⟩ := bind_eq_ok.mp h
  obtain ⟨filled, hadd, h⟩ := bind_eq_ok.mp h
  have hfilled := (represents_of_train htrain).add hadd
  split_ifs at h with hlayout
  · cases h
    simpa [hlayout] using hfilled
  · simpa [hlayout] using hfilled.applyGraphLayout hlayout h

end Layout

/-! ### Serialize and Deserialize -/

variable {W : Formats V D R} {bytes : List UInt8} {tables : FaissNode (SqIndex V D R)}

lemma readNode_writeIndex (hw : writeIndex B W ix = some bytes)
    (h : readNode B W bytes = .ok tables) : tables = ⟨[some ix.toFile.toIndex], [], [], [],
      []⟩ := by
  obtain ⟨c, rest, htag⟩ := read_tag_writeIndex hw
  have hplain : c.tag ≠ mvTag := by cases c <;> decide
  have hread := readIndex_writeIndex hw []
  rw [append_nil] at hread
  obtain ⟨⟨tag, rest'⟩, htag', h⟩ := bind_eq_ok.mp h
  obtain ⟨rfl, rfl⟩ := Prod.mk.inj (ok_unique htag' htag)
  simp only [if_neg hplain] at h
  obtain ⟨p, hp, h⟩ := bind_eq_ok.mp h
  rw [hread] at hp
  cases hrefusal : (indexWire B W).refusal ix.toFile with
  | some e => simp [hrefusal] at hp
  | none =>
    rw [hrefusal] at hp
    cases hp
    exact (Except.ok.inj h).symm

lemma readNode_nodeFile (htag : (Wire.uint 4).write mvTag = some tag)
      (hbody : (nodeFileWire B W).write file = some body)
    (h : readNode B W (tag ++ body) = .ok tables) :
    tables = ⟨file.indexes.map fun f => some f.toIndex, file.labels, file.indexRowsSum,
      file.labelToInternalOffset, []⟩ := by
  have hread := (nodeFileWire B W).read_write hbody []
  rw [append_nil] at hread
  unfold readNode at h
  rw [(Wire.uint 4).read_write htag] at h
  obtain ⟨p, hp, h⟩ := bind_eq_ok.mp h
  cases hp
  obtain ⟨q, hq, h⟩ := bind_eq_ok.mp h
  rw [hread] at hq
  cases hrefusal : (nodeFileWire B W).refusal file with
  | some e => simp [hrefusal] at hq
  | none =>
    rw [hrefusal] at hq
    cases hq
    exact (Except.ok.inj h).symm

lemma Represents.reload (hr : Represents B node held)
    (hw : node.serialize B W = .ok bytes) {other : HnswSqNode V D R}
    (h : other.deserialize B W (some bytes) = .ok node') : Represents B node' held := by
  unfold deserialize at h
  unfold serialize at hw
  cases hread : readNode B W bytes with
  | error e => simp [hread] at h
  | ok tables =>
    obtain rfl : _ = node' := by simpa [hread] using h
    cases hr with
    | untrained htables => simp [htables, FaissNode.init, FaissNode.isIndexEmpty] at hw
    | @unordered ix rows htables hholds hnorms =>
      have hwrite : writeIndex B W ix = some bytes := by
        simpa [htables, isIndexEmpty, orUndefined_eq_ok, writeNode] using hw
      obtain rfl := readNode_writeIndex hwrite hread
      exact .unordered rfl hholds.toIndex (SqIndex.hasNorms_toIndex hnorms)
    | @laidOut ix rows perm htables hp hsmall hholds =>
      obtain ⟨tag, htag, body, hbody, rfl⟩ : ∃ tag, (Wire.uint 4).write mvTag = some tag ∧
          ∃ body, (nodeFileWire B W).write ⟨[perm], [0, rows.length],
            (range rows.length).map perm.idxOf, [ix.toFile]⟩ = some body
          ∧ tag ++ body = bytes := by
        simpa [htables, isIndexEmpty, orUndefined_eq_ok, writeNode, toFile,
          bind_eq_some_iff] using hw
      obtain rfl := readNode_nodeFile htag hbody hread
      exact .laidOut rfl hp hsmall hholds.toIndex

/-! ### What the tables say -/

lemma count_of_tables (hindexes : node.indexes = [some ix]) (hholds : ix.Holds B rows) :
    node.count = rows.length := by
  simp [count, isIndexEmpty, hindexes, hholds.ntotal, List.reduceOption]

lemma Represents.consistent (hr : Represents B node held) : node.Consistent B held := by
  cases hr with
  | untrained htables => exact htables
  | @unordered ix rows htables hholds hnorms =>
    have hindexes : node.indexes = [some ix] := by rw [htables]
    refine ⟨ix, hindexes, count_of_tables hindexes hholds, ?_⟩
    exact ⟨by rw [htables], by rw [htables], by rw [htables], hholds.base.codeRow⟩
  | @laidOut ix rows perm htables hp hsmall hholds =>
    have hindexes : node.indexes = [some ix] := by rw [htables]
    have hlen : (perm.map (rows.getD · [])).length = rows.length := by rw [length_map, hp.length]
    refine ⟨ix, hindexes, hlen ▸ count_of_tables hindexes hholds, ?_⟩
    refine ⟨perm, by rw [htables], hp, by rw [htables], fun i e => ?_, fun i e row hi he => ?_⟩
    · rw [htables]
      exact hp.getElem?_inverse_iff
    · apply hholds.base.codeRow
      rw [getElem?_map, hi, map_some, getD_eq_getElem?_getD, he, getD_some]

end HnswSqNode

/-! ### Histories -/

namespace System

open HnswSqNode

variable {V D R : Type} (B : Backend V D R) (W : Formats V D R)

structure Agrees (s : System V D R) (l : Ledger V) : Prop where
  nodes : ∀ i, (s.nodes i).Represents B (l.nodes i)
  saved : ∀ j bytes, s.binarySets j = some bytes →
    ∃ node : HnswSqNode V D R, node.Represents B (l.binarySets j) ∧ node.serialize B W = .ok bytes

variable {B W} {s s' : System V D R} {l : Ledger V}

lemma agrees_init (dataFormat : ℕ → DataFormat) :
    Agrees B W (System.init dataFormat) Ledger.init where
  nodes _ := .untrained rfl
  saved _ _ h := by cases h

lemma withNode_eq_some (h : s.withNode i reply = some s') :
    ∃ node, reply = .ok node ∧ s' = { s with nodes := Function.update s.nodes i node } := by
  cases reply with
  | error refused => cases h
  | ok node => exact ⟨node, rfl, (some.inj h).symm⟩

lemma Agrees.setNode (ha : Agrees B W s l) (hnode : node.Represents B held) :
    Agrees B W { s with nodes := Function.update s.nodes i node } (l.setNode i held) where
  nodes i' := by
    by_cases hi : i' = i
    · subst hi
      simpa [Ledger.setNode] using hnode
    · simpa [Ledger.setNode, hi] using ha.nodes i'
  saved := ha.saved

section Step

variable {S : StdSort ℕ} {F : Type}
  [LinearOrder F] [Zero F] [One F] [Add F] [Sub F] [Mul F] [Div F] [NatCast F] [Zero V] [One V]

lemma Agrees.step (ha : Agrees B W s l) {call : Call V}
    (h : System.step B W S F s call = some s') : Agrees B W s' (l.step call) := by
  cases call with
  | train i ds cfg =>
    obtain ⟨node, hnode, rfl⟩ := withNode_eq_some h
    exact ha.setNode (represents_of_train hnode)
  | add i ds =>
    obtain ⟨node, hnode, rfl⟩ := withNode_eq_some h
    exact ha.setNode ((ha.nodes i).add hnode)
  | build i ds cfg =>
    obtain ⟨node, hnode, rfl⟩ := withNode_eq_some h
    exact ha.setNode (represents_of_build hnode)
  | serialize i j =>
    unfold System.step at h
    cases hbytes : (s.nodes i).serialize B W with
    | error failure => simp [hbytes] at h
    | ok bytes =>
      obtain rfl : _ = s' := by simpa [hbytes] using h
      refine ⟨ha.nodes, fun j' bytes' hsaved => ?_⟩
      by_cases hj : j' = j
      · subst hj
        obtain rfl : bytes = bytes' := by simpa using hsaved
        exact ⟨s.nodes i, by simpa [Ledger.step] using ha.nodes i, hbytes⟩
      · simp only [Function.update_of_ne hj] at hsaved
        simpa [Ledger.step, hj] using ha.saved j' bytes' hsaved
  | deserialize i j =>
    obtain ⟨node, hnode, rfl⟩ := withNode_eq_some h
    apply ha.setNode
    cases hsaved : s.binarySets j with
    | none => simp [hsaved, deserialize, refuse] at hnode
    | some bytes =>
      obtain ⟨saved, hrepr, hwrite⟩ := ha.saved j bytes hsaved
      rw [hsaved] at hnode
      exact hrepr.reload hwrite hnode

lemma Agrees.run (ha : Agrees B W s l)
    (h : s.run B W S F calls = some s') : Agrees B W s' (l.run calls) := by
  induction calls generalizing s l with
  | nil =>
    cases h
    exact ha
  | cons call calls ih =>
    obtain ⟨t, ht, hrest⟩ := bind_eq_some_iff.mp h
    exact ih (ha.step ht) hrest

/-- **The id tables stay consistent** along every history of successful calls: they agree with the
ledger, a node whose rows a layout has renumbered refuses every `Add` and stays as it is, and after
a `Train` the tables are gone. -/
theorem run_consistent (dataFormat : ℕ → DataFormat) (calls : List (Call V))
    (h : (System.init dataFormat).run B W S F calls = some s) (i : ℕ) :
    (s.nodes i).Consistent B ((Ledger.init.run calls).nodes i)
      ∧ (∀ held, (Ledger.init.run calls).nodes i = some held → held.laidOut = true →
        ∀ ds, (s.nodes i).add B ds = refuse .invalidArgs
          "Can not add data after a post-build HNSW layout pass." (some (s.nodes i)))
      ∧ ∀ ds cfg, ∀ node ∈ ((s.nodes i).train B ds cfg).after,
        node.labels = [] ∧ node.indexRowsSum = [] ∧ node.labelToInternalOffset = [] := by
  have hrepr := ((agrees_init dataFormat).run h).nodes i
  refine ⟨hrepr.consistent, fun held hheld hl ds => ?_, fun ds cfg node hnode => ?_⟩
  · rw [hheld] at hrepr
    exact hrepr.add_laidOut hl ds
  · exact tables_after_train hnode

end Step

/-- Every node has an edge to the one before it. -/
def chainGraph (n : ℕ) : HNSW :=
  let rows := (range n).map fun v : ℕ => [(v : ℤ) - 1, -1, -1, -1]
  ⟨[0, 4], replicate n 1, rowOffsets rows, rows.flatten, n - 1⟩

lemma chainGraph_ok (n : ℕ) : GraphOk (chainGraph n) n := by
  refine ⟨by simp [chainGraph], fun hpos => ?_⟩
  exact
    { cum_sorted := by simp [chainGraph]
      levels_pos := by simp [chainGraph]
      levels_lt := by simp [chainGraph]
      blocks := ⟨_, rfl, rfl, by simp [chainGraph, Function.comp_def]⟩
      ids_lt := by
        intro v hv
        obtain ⟨row, hrow, hv⟩ := mem_flatten.mp hv
        obtain ⟨u, hu, rfl⟩ := mem_map.mp hrow
        have hlt := mem_range.mp hu
        have hcases : v = (u : ℤ) - 1 ∨ v = -1 := by simpa using hv
        simp only [chainGraph, length_replicate]
        omega
      entry_nonneg := by
        simp only [chainGraph]
        omega
      entry_lt := by simp [chainGraph] }

/-- A quantizer with eight bits for the range of each component, in a graph that is a chain. -/
def byteBackend : Backend ℕ ℕ Unit where
  hybridCodeSize _ _ := 0
  trainSq _ d rows :=
    let column i := rows.map (·.getD i 0)
    let vmin i := (column i).foldl min ((column i).headD 0)
    .ok ((range d).map vmin ++ (range d).map fun i => (column i).foldl max 0 - vmin i)
  encode sq x := (range (sq.codeSize fun _ _ => 0)).map fun i =>
    UInt8.ofNat (min 255 ((x.getD i 0 - sq.trained.getD i 0) * 255 / sq.trained.getD (sq.d + i) 0))
  encode_length := by simp
  inverseNorm _ := 1
  newGraph _ := (chainGraph 0, ⟨[], -1, 40, 16, 1⟩)
  newGraph_ok _ := chainGraph_ok 0
  addVertices x _ := .ok (chainGraph x.info.ntotal, { x.params with maxLevel := 0 })
  addVertices_ok := by
    rintro x n₀ g - - h
    obtain rfl := Except.ok.inj h
    exact chainGraph_ok _
  newRefine _ _ _ := ()
  refineIsTrained _ := true
  refineTrain _ _ := .ok ()
  refineAdd _ _ := .ok ()

def byteFormats : Formats ℕ ℕ Unit := ⟨.uint 4, .uint 8, .skip []⟩

def savedLayout : List (Call ℕ) :=
  [.build 0 ⟨2, [[7, 90], [9, 10], [8, 30]]⟩ ⟨"L2", "SQ8", 2, 40, none, none, "BFS"⟩,
    .serialize 0 0, .deserialize 1 0]

/-- Three rows are laid out, saved, and loaded into another node, which numbers them from the end
of the chain. -/
theorem run_consistent_savedLayout : ∃ s,
    (System.init fun _ => .fp32).run byteBackend byteFormats StdSort.insertion ℚ savedLayout
      = some s
      ∧ (s.nodes 1).labels = [[2, 1, 0]]
      ∧ (s.nodes 1).Consistent byteBackend (some ⟨[[7, 90], [9, 10], [8, 30]], true⟩)
      ∧ ∀ ds, (s.nodes 1).add byteBackend ds = refuse .invalidArgs
        "Can not add data after a post-build HNSW layout pass." (some (s.nodes 1)) := by
  have hrun : ((System.init fun _ => .fp32).run byteBackend byteFormats StdSort.insertion ℚ
      savedLayout).map (fun s => (s.nodes 1).labels) = some [[2, 1, 0]] := by decide +kernel
  obtain ⟨s, hs, hlabels⟩ := map_eq_some_iff.mp hrun
  have hledger : (Ledger.init.run savedLayout).nodes 1
      = some ⟨[[7, 90], [9, 10], [8, 30]], true⟩ := rfl
  obtain ⟨hconsistent, hadd, -⟩ := run_consistent (fun _ => .fp32) savedLayout hs 1
  exact ⟨s, hs, hlabels, hledger ▸ hconsistent, hadd _ hledger rfl⟩

end System

end Rvanns.Knowhere
