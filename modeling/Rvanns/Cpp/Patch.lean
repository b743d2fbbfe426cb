import Rvanns.Cpp.Returns
import Rvanns.Cpp.Rows
import Rvanns.Cpp.Segment

/-!
# Writing ranges into a vector

A record is filled by writes into it, each of some values from some position on.
-/

namespace Rvanns.Cpp

open List Option

variable {α : Type*} {v vals : List α} {pos : ℕ}

lemma holdsAt_iff : HoldsAt v pos vals ↔ ∀ i < vals.length, v[pos + i]? = vals[i]? := by
  constructor
  · intro h i hi
    exact h.getElem? hi
  · intro h
    apply prefix_iff_getElem?.mpr
    intro i hi
    rw [getElem?_drop, h i hi, getElem?_eq_getElem hi]

@[simp] lemma holdsAt_singleton : HoldsAt v pos [a] ↔ v[pos]? = some a := by
  simp [holdsAt_iff]

lemma writeRange_of_le (h : pos + vals.length ≤ v.length) :
    writeRange v pos vals = some (v.take pos ++ vals ++ v.drop (pos + vals.length)) :=
  if_pos h

lemma wr_eq_writeRange (v : List α) (i : ℕ) (a : α) : wr v i a = writeRange v i [a] := by
  unfold wr writeRange
  by_cases h : i < v.length
  · rw [if_pos h, if_pos (by rw [length_singleton]; omega), set_eq_take_append_cons_drop, if_pos h]
    simp
  · rw [if_neg h, if_neg (by rw [length_singleton]; omega)]

lemma getElem?_of_writeRange (h : writeRange v pos vals = some v') (k : ℕ) :
    v'[k]? = if pos ≤ k ∧ k < pos + vals.length then vals[k - pos]? else v[k]? := by
  unfold writeRange at h
  split_ifs at h with hfit
  cases h
  have hfront : (v.take pos).length = pos := length_take_of_le (by omega)
  rw [append_assoc]
  rcases lt_or_ge k pos with hk | hk
  · rw [if_neg (by omega), getElem?_append_left (by omega), getElem?_take_of_lt hk]
  rw [getElem?_append_right (by omega), hfront]
  rcases lt_or_ge k (pos + vals.length) with hk' | hk'
  · rw [if_pos ⟨hk, hk'⟩, getElem?_append_left (by omega)]
  · rw [if_neg (by omega), getElem?_append_right (by omega), getElem?_drop]
    congr 1
    omega

lemma length_of_writeRange (h : writeRange v pos vals = some v') : v'.length = v.length := by
  unfold writeRange at h
  split_ifs at h with hfit
  cases h
  simp only [length_append, length_take, length_drop]
  omega

lemma holdsAt_of_writeRange (h : writeRange v pos vals = some v') : HoldsAt v' pos vals := by
  apply holdsAt_iff.mpr
  intro i hi
  rw [getElem?_of_writeRange h, if_pos (by omega), Nat.add_sub_cancel_left]

lemma HoldsAt.of_writeRange (hv : HoldsAt v pos' vals') (h : writeRange v pos vals = some v')
    (hapart : pos + vals.length ≤ pos' ∨ pos' + vals'.length ≤ pos) : HoldsAt v' pos' vals' := by
  apply holdsAt_iff.mpr
  intro i hi
  rw [getElem?_of_writeRange h, if_neg (by omega), hv.getElem? hi]

structure Write (α : Type*) where
  pos : ℕ
  vals : List α

def Write.Apart (w w' : Write α) : Prop :=
  w.pos + w.vals.length ≤ w'.pos ∨ w'.pos + w'.vals.length ≤ w.pos

def writeAll (ws : List (Write α)) (v : List α) : Option (List α) :=
  ws.foldlM (fun v w => writeRange v w.pos w.vals) v

@[simp] lemma writeAll_cons (w : Write α) (ws : List (Write α)) (v : List α) :
    writeAll (w :: ws) v = writeRange v w.pos w.vals >>= writeAll ws := rfl

lemma writeAll_singleton (w : Write α) (v : List α) : writeAll [w] v = writeRange v w.pos w.vals :=
  bind_pure (m := Option) _

lemma foldlM_eq_writeAll {β : Type*} {f : List α → β → Option (List α)} {ws : β → List (Write α)}
    {l : List β} (h : ∀ b ∈ l, ∀ v, f v b = writeAll (ws b) v) (v : List α) :
    l.foldlM f v = writeAll (l.flatMap ws) v := by
  induction l generalizing v with
  | nil => rfl
  | cons b l ih =>
    obtain ⟨hb, hl⟩ := forall_mem_cons.mp h
    rw [foldlM_cons, flatMap_cons, writeAll, foldlM_append, hb]
    exact bind_congr (m := Option) (ih hl)

/-- **Separate writes do not disturb each other**: they all succeed, and at the end every range
holds the values written to it. -/
theorem returns_writeAll (hfit : ∀ w ∈ ws, w.pos + w.vals.length ≤ v.length)
    (hapart : ws.Pairwise Write.Apart) :
    Returns (writeAll ws v) fun v' => v'.length = v.length ∧ ∀ w ∈ ws, HoldsAt v' w.pos w.vals := by
  refine .foldlM (P := fun done v' => v'.length = v.length
    ∧ ∀ w ∈ done, HoldsAt v' w.pos w.vals) ws ?_ ⟨rfl, by simp⟩
  rintro done w later rfl v' ⟨hlen, hdone⟩
  have hw := hfit w (by simp)
  have hwrite : writeRange v' w.pos w.vals
      = some (v'.take w.pos ++ w.vals ++ v'.drop (w.pos + w.vals.length)) :=
    writeRange_of_le (by omega)
  apply Returns.of_eq hwrite
  refine ⟨(length_of_writeRange hwrite).trans hlen, ?_⟩
  intro w' hw'
  rcases mem_append.mp hw' with hw' | hw'
  · -- an earlier range is apart from this one
    have hsep : Write.Apart w' w := (pairwise_append.mp hapart).2.2 w' hw' w (by simp)
    exact (hdone w' hw').of_writeRange hwrite hsep.symm
  · obtain rfl := mem_singleton.mp hw'
    exact holdsAt_of_writeRange hwrite

lemma foldlM_modifyAt {α : Type} {body : List α → ℕ → Option (List α)} {h : ℕ → α → α}
    (hbody : ∀ i < n, ∀ out, out.length = n → body out i = modifyAt out i (h i)) (f : ℕ → α) :
    (range n).foldlM body ((range n).map f) = some ((range n).map fun j => h j (f j)) := by
  have hloop : Returns ((range n).foldlM body ((range n).map f)) fun out =>
      out = (range n).map fun j => if j < n then h j (f j) else f j := by
    refine .foldlM_range (P := fun i out =>
      out = (range n).map fun j => if j < i then h j (f j) else f j) n ?_ (by simp)
    rintro i hi out rfl
    refine .of_eq ((hbody i hi _ (by simp)).trans (modifyAt_range_map hi _ _)) ?_
    apply map_congr_left
    intro j _
    by_cases hj : j = i
    · simp [hj]
    · have hiff : j < i + 1 ↔ j < i := by omega
      simp [hj, hiff]
  obtain ⟨out, hout, rfl⟩ := hloop
  rw [hout]
  congr 1
  apply map_congr_left
  intro j hj
  rw [if_pos (mem_range.mp hj)]

/-! ### Sequences stored in chunks of one size -/

section

variable {α : Type*} {c n i : ℕ}

def chunkNum (c n : ℕ) : ℕ := n / c + if n % c ≠ 0 then 1 else 0

lemma lt_chunkNum_iff (hc : 0 < c) : i < chunkNum c n ↔ i * c < n := by
  have hdiv := Nat.div_add_mod' n c
  have hmod := Nat.mod_lt n hc
  unfold chunkNum
  rcases lt_or_ge i (n / c) with hlt | hge
  · have hle : (i + 1) * c ≤ n / c * c := Nat.mul_le_mul_right c hlt
    rw [Nat.succ_mul] at hle
    constructor
    · intro _
      omega
    · intro _
      split_ifs <;> omega
  · have hle : n / c * c ≤ i * c := Nat.mul_le_mul_right c hge
    constructor
    · intro h
      split_ifs at h with hrest
      · obtain rfl : i = n / c := by omega
        omega
      · omega
    · intro h
      have hrest : n % c ≠ 0 := by omega
      rw [if_pos hrest]
      by_contra hnot
      have hnext : (n / c + 1) * c ≤ i * c := Nat.mul_le_mul_right c (by omega)
      rw [Nat.succ_mul] at hnext
      omega

lemma le_chunkNum_mul (hc : 0 < c) : n ≤ chunkNum c n * c := by
  by_contra hlt
  exact lt_irrefl _ ((lt_chunkNum_iff hc).mpr (not_le.mp hlt))

lemma chunkNum_le_iff (hc : 0 < c) : chunkNum c n ≤ m ↔ n ≤ m * c := by
  rw [← not_lt, lt_chunkNum_iff hc, not_lt]

structure ChunksHold (c : ℕ) (chunks : List (List (Option α))) (es : List α) : Prop where
  lengths : ∀ chunk ∈ chunks, chunk.length = c
  begins : es.map some <+: chunks.flatten

variable {chunks : List (List (Option α))} {es : List α}

section

variable (h : ChunksHold c chunks es)

include h

lemma ChunksHold.rowOffset_eq (hi : i ≤ chunks.length) : rowOffset chunks i = i * c :=
  rowOffset_of_length h.lengths hi

lemma ChunksHold.length_flatten : chunks.flatten.length = chunks.length * c := by
  rw [← h.rowOffset_eq le_rfl, rowOffset, List.take_length, List.length_flatten]

lemma ChunksHold.length_le : es.length ≤ chunks.length * c := by
  have hle := h.begins.length_le
  rwa [length_map, h.length_flatten] at hle

lemma ChunksHold.getElem? (hj : j < c)
    (hij : i * c + j < es.length) : ∃ chunk, chunks[i]? = some chunk
      ∧ chunk[j]? = es[i * c + j]?.map some := by
  have hi : i < chunks.length := by
    by_contra hge
    have hle := h.length_le
    have hmul : chunks.length * c ≤ i * c := Nat.mul_le_mul_right c (not_lt.mp hge)
    omega
  have hchunk : chunks[i]? = some chunks[i] := getElem?_eq_getElem hi
  refine ⟨chunks[i], hchunk, ?_⟩
  have hlen : j < chunks[i].length := by rw [h.lengths _ (getElem_mem hi)]; exact hj
  rw [← getElem?_flatten_rowOffset hchunk hlen, h.rowOffset_eq hi.le]
  have hcell := prefix_iff_getElem?.mp h.begins (i * c + j) (by rwa [length_map])
  rw [hcell, getElem_map, getElem?_eq_getElem hij, map_some]

lemma ChunksHold.append (m : ℕ) :
    ChunksHold c (chunks ++ List.replicate m (List.replicate c none)) es := by
  constructor
  · intro chunk hchunk
    rcases mem_append.mp hchunk with hold | hnew
    · exact h.lengths chunk hold
    · rw [(mem_replicate.mp hnew).2, length_replicate]
  · rw [flatten_append]
    exact h.begins.trans (prefix_append _ _)

end

def writeChunk (chunks : List (List (Option α))) (i off : ℕ) (xs : List α) :
    Option (List (List (Option α))) := do
  let chunk ← chunks[i]?
  let chunk ← writeRange chunk off (xs.map some)
  return chunks.set i chunk

lemma ChunksHold.writeChunk (h : ChunksHold c chunks es)
    (hlen : es.length = i * c + off) (hfit : off + xs.length ≤ c) (hi : i < chunks.length) :
    ∃ chunks', writeChunk chunks i off xs = some chunks' ∧ ChunksHold c chunks' (es ++ xs)
      ∧ chunks'.length = chunks.length := by
  have hchunk : chunks[i]? = some chunks[i] := getElem?_eq_getElem hi
  have hsize : chunks[i].length = c := h.lengths _ (getElem_mem hi)
  have hroom : off + (xs.map some).length ≤ chunks[i].length := by
    rw [length_map, hsize]
    exact hfit
  have hflat := writeRange_rowOffset_add hchunk hroom
  rw [h.rowOffset_eq hi.le, ← hlen] at hflat
  refine ⟨chunks.set i (chunks[i].take off ++ xs.map some ++ chunks[i].drop
    (off + (xs.map some).length)), ?_, ⟨fun chunk hmem => ?_, ?_⟩, length_set⟩
  · rw [Cpp.writeChunk, hchunk]
    simp only [some_bind, writeRange_of_le hroom]
    rfl
  · rcases mem_or_eq_of_mem_set hmem with hold | rfl
    · exact h.lengths chunk hold
    · simp only [length_append, length_take, length_drop, length_map, hsize]
      omega
  · have hend : (i + 1) * c ≤ chunks.length * c := Nat.mul_le_mul_right c hi
    rw [Nat.succ_mul] at hend
    have hwhole : es.length + (xs.map some).length ≤ chunks.flatten.length := by
      rw [h.length_flatten]
      omega
    have hfront : chunks.flatten.take es.length = es.map some := by
      have heq := prefix_iff_eq_take.mp h.begins
      rw [length_map] at heq
      exact heq.symm
    rw [writeRange_of_le hwhole, hfront] at hflat
    rw [← some.inj hflat, map_append]
    exact prefix_append _ _

end

end Rvanns.Cpp
