import Rvanns.Faiss.Equiv.Layout.UnitHeap

/-!
# Building the unit heap

`ReConstruct` sorts the nodes by their keys and then writes links and headers in one pass.
-/

namespace Rvanns.Faiss

open Cpp List
open Function (update_of_ne update_self)

namespace UnitHeap

variable {n k v : ℕ} {h : UnitHeap} {key : ℕ → ℕ} {pre : List ℕ} {header : List RorderHeadEnd}

/-! ### Headers -/

def HeadedOpen (header : List RorderHeadEnd) (key : ℕ → ℕ) (k : ℕ) (pre : List ℕ) : Prop :=
  ∀ j < header.length, header[j]? =
    some (if j = k then ⟨(keyRun key j pre).head?, none⟩ else ends (keyRun key j pre))

lemma keyRun_concat_self (key : ℕ → ℕ) (pre : List ℕ) (v : ℕ) :
    keyRun key (key v) (pre ++ [v]) = keyRun key (key v) pre ++ [v] := by
  rw [keyRun_append, keyRun_cons_self, keyRun_nil]

lemma keyRun_concat_of_ne (hj : j ≠ key v) (pre : List ℕ) :
    keyRun key j (pre ++ [v]) = keyRun key j pre := by
  rw [keyRun_append, keyRun_cons_of_ne (.symm hj), keyRun_nil, append_nil]

lemma HeadedOpen.push (h : HeadedOpen header key k pre) (hv : key v = k)
    (hne : keyRun key k pre ≠ []) : HeadedOpen header key k (pre ++ [v]) := by
  subst hv
  intro j hj
  rw [h j hj]
  by_cases hjk : j = key v
  · subst hjk
    rw [if_pos rfl, if_pos rfl, keyRun_concat_self]
    obtain ⟨y, r, hr⟩ := exists_cons_of_ne_nil hne
    rw [hr]
    rfl
  · rw [if_neg hjk, if_neg hjk, keyRun_concat_of_ne hjk]

/-- The open run gets its end. -/
lemma HeadedOpen.close (h : HeadedOpen header key k (pre ++ [v])) (hv : key v = k)
    (hk : k < header.length) :
    Returns (modifyAt header k fun run => { run with second := some v }) fun header' =>
      Headed header' key (pre ++ [v]) ∧ header'.length = header.length := by
  subst hv
  have hset : modifyAt header (key v) (fun run => { run with second := some v })
      = some (header.set (key v) (ends (keyRun key (key v) (pre ++ [v])))) := by
    rw [modifyAt, h (key v) hk, if_pos rfl, ends, keyRun_concat_self, getLast?_append_cons]
    rfl
  refine .of_eq hset ⟨fun j hj => ?_, by simp⟩
  rw [length_set] at hj
  rw [getElem?_set_of_lt hk]
  split
  · next heq => rw [← heq]
  · next hne => rw [h j hj, if_neg (Ne.symm hne)]

/-- A new run is opened. -/
lemma Headed.openRun (h : Headed header key pre) (hk : key v < header.length)
    (hnil : keyRun key (key v) pre = []) :
    Returns (Cpp.modifyAt header (key v) fun run => { run with first := some v }) fun header' =>
      HeadedOpen header' key (key v) (pre ++ [v]) ∧ header'.length = header.length := by
  have hset : Cpp.modifyAt header (key v) (fun run => { run with first := some v })
      = some (header.set (key v) ⟨some v, none⟩) := by
    rw [Cpp.modifyAt, h (key v) hk, hnil]
    rfl
  refine .of_eq hset ⟨fun j hj => ?_, by simp⟩
  rw [length_set] at hj
  rw [getElem?_set_of_lt hk]
  by_cases hjk : j = key v
  · subst hjk
    rw [if_pos rfl, if_pos rfl, keyRun_concat_self, hnil]
    rfl
  · rw [if_neg (Ne.symm hjk), if_neg hjk, keyRun_concat_of_ne hjk, h j hj]

/-- Nodes of higher keys are not in the run of `v`. -/
lemma keyRun_eq_nil_of_last (hs : KeysDescend key (pre ++ [p] ++ [v]))
    (hne : key v ≠ key p) : keyRun key (key v) (pre ++ [p]) = [] := by
  obtain ⟨hsp, -, hv⟩ := KeysDescend.append_iff.mp hs
  have hlt : key v < key p := lt_of_le_of_ne (hv p (by simp) v (by simp)) hne
  refine keyRun_eq_nil fun y hy => ?_
  rcases mem_append.mp hy with hy | hy
  · have := (KeysDescend.append_iff.mp hsp).2.2 y hy p (by simp)
    omega
  · rw [mem_singleton.mp hy]
    omega

lemma HeadedOpen.next (h : HeadedOpen header key (key p) (pre ++ [p]))
    (hs : KeysDescend key (pre ++ [p] ++ [v]))
      (hlt : ∀ y ∈ pre ++ [p] ++ [v], key y < header.length)
    {α : Type} (r : List RorderHeadEnd → ℕ → α) :
    Returns (if key v = key p then some (r header (key p))
      else do
        let header ← modifyAt header (key p) fun run => { run with second := some p }
        let header ← modifyAt header (key v) fun run => { run with first := some v }
        some (r header (key v))) fun res => ∃ header', res = r header' (key v) ∧
          HeadedOpen header' key (key v) (pre ++ [p] ++ [v]) ∧ header'.length = header.length := by
  split
  · next heq =>
    refine .pure ⟨header, by rw [heq], ?_, rfl⟩
    rw [heq]
    refine h.push heq (ne_nil_of_mem (a := p) (mem_keyRun.mpr ⟨by simp, rfl⟩))
  · next hne =>
    refine (h.close rfl (hlt p (by simp))).bind ?_
    rintro header1 ⟨h1, hlen1⟩
    refine (h1.openRun (hlen1 ▸ hlt v (by simp)) (keyRun_eq_nil_of_last hs hne)).bind ?_
    rintro header2 ⟨h2, hlen2⟩
    exact .pure ⟨header2, rfl, h2, hlen2.trans hlen1⟩

/-- The last node, after which all runs are closed. -/
lemma HeadedOpen.closeRuns (h : HeadedOpen header key (key p) (pre ++ [p]))
    (hs : KeysDescend key (pre ++ [p] ++ [v]))
    (hlt : ∀ y ∈ pre ++ [p] ++ [v], key y < header.length) :
    Returns (UnitHeap.closeRuns header (key p) (key v) v p) fun header' =>
      Headed header' key (pre ++ [p] ++ [v]) ∧ header'.length = header.length := by
  unfold UnitHeap.closeRuns
  split
  · next heq =>
    have hopen := h.push heq.symm (ne_nil_of_mem (a := p) (mem_keyRun.mpr ⟨by simp, rfl⟩))
    exact hopen.close heq.symm (hlt p (by simp))
  · next hne =>
    refine (h.close rfl (hlt p (by simp))).bind ?_
    rintro header1 ⟨h1, hlen1⟩
    have hv : key v < header1.length := hlen1 ▸ hlt v (by simp)
    refine .of_eq (wr_of_lt hv _) ⟨fun j hj => ?_, by simpa using hlen1⟩
    rw [length_set] at hj
    rw [getElem?_set_of_lt hv]
    by_cases hjk : j = key v
    · subst hjk
      rw [if_pos rfl, keyRun_concat_self, keyRun_eq_nil_of_last hs (.symm hne)]
      rfl
    · rw [if_neg (Ne.symm hjk), keyRun_concat_of_ne hjk, h1 j hj]

/-! ### Links -/

/-- The links of the node at place `j` of the sequence. -/
def LinkedAt (prev next : ℕ → Option ℕ) (tmp : List ℕ) (j : ℕ) : Prop :=
  prev (tmp.getD j 0) = (if j = 0 then none else tmp[j - 1]?) ∧ next (tmp.getD j 0) = tmp[j + 1]?

variable {tmp : List ℕ} {prev next : ℕ → Option ℕ}

lemma isDList_of_linkedAt (h : ∀ j < tmp.length, LinkedAt prev next tmp j) :
    IsDList prev next tmp := by
  intro a x b heq
  subst heq
  obtain ⟨h1, h2⟩ := h a.length (by simp)
  have hx : (a ++ x :: b).getD a.length 0 = x := by simp
  rw [hx] at h1 h2
  refine ⟨h1.trans ?_, h2.trans ?_⟩
  · rcases eq_nil_or_concat a with rfl | ⟨a, y, rfl⟩
    · rfl
    · simp
  · rw [getElem?_append_right (by omega)]
    simp [head?_eq_getElem?]

/-- Different places hold different nodes. -/
lemma getD_ne_of_nodup (hnd : tmp.Nodup) (hi : i < tmp.length) (hj : j < tmp.length)
    (hij : i ≠ j) : tmp.getD i 0 ≠ tmp.getD j 0 := by
  rw [getD_eq_getElem _ _ hi, getD_eq_getElem _ _ hj]
  exact fun heq => hij ((List.Nodup.getElem_inj_iff hnd).mp heq)

lemma LinkedAt.update (hnd : tmp.Nodup) (hi : i < tmp.length) (hj : j < tmp.length)
    (hij : j ≠ i) (h : LinkedAt prev next tmp j) (p q : Option ℕ) :
    LinkedAt (Function.update prev (tmp.getD i 0) p) (Function.update next (tmp.getD i 0) q)
      tmp j := by
  have hne := getD_ne_of_nodup hnd hj hi hij
  exact ⟨by rw [update_of_ne hne]; exact h.1,
    by rw [update_of_ne hne]; exact h.2⟩

/-! ### The pass over the sorted sequence -/

/-- A sequence of nodes sorted by their keys. -/
structure SortedNodes (n : ℕ) (key : ℕ → ℕ) (tmp : List ℕ) : Prop where
  nodup : tmp.Nodup
  sorted : KeysDescend key tmp
  lt : ∀ y ∈ tmp, y < n
  two : 2 ≤ tmp.length

structure Pass (n : ℕ) (key : ℕ → ℕ) (tmp : List ℕ) (size i : ℕ)
    (s : List RorderListElement × List RorderHeadEnd × ℕ) : Prop where
  cells : ∃ prev next, Cells n s.1 key prev next ∧ (∀ j ≤ i, LinkedAt prev next tmp j) ∧
    LinkedAt prev next tmp (tmp.length - 1)
  key_eq : s.2.2 = key (tmp.getD i 0)
  headed : HeadedOpen s.2.1 key (key (tmp.getD i 0)) (tmp.take (i + 1))
  length : s.2.1.length = size

lemma getElem?_eq_getD (hi : i < tmp.length) : tmp[i]? = some (tmp.getD i 0) :=
  Cpp.getElem?_eq_getD hi 0

lemma take_add_one_eq (hi : i < tmp.length) : tmp.take (i + 1) = tmp.take i ++ [tmp.getD i 0] := by
  rw [take_add_one, getElem?_eq_getD hi]
  rfl

lemma SortedNodes.take (hn : SortedNodes n key tmp) (i : ℕ) : KeysDescend key (tmp.take i) :=
  List.Pairwise.sublist (take_sublist i tmp) hn.sorted

/-- One place of the pass. -/
lemma Pass.linkTurn
    (hn : SortedNodes n key tmp) (hsize : ∀ y ∈ tmp, key y < size) (hi : i < tmp.length - 2)
    (hs : Pass n key tmp size i s) :
    Returns (linkTurn tmp s (i + 1)) (Pass n key tmp size (i + 1)) := by
  obtain ⟨cells, header, k⟩ := s
  obtain ⟨⟨prev, next, hc, hle, hlast⟩, rfl, hheaded, hlen⟩ := hs
  have hv : tmp.getD (i + 1) 0 < n := hn.lt _ (mem_of_getElem? (getElem?_eq_getD (by omega)))
  refine .bind_eq (getElem?_eq_getD (i := i + 1 - 1) (by omega)) ?_
  refine .bind_eq (getElem?_eq_getD (i := i + 1) (by omega)) ?_
  refine .bind_eq (getElem?_eq_getD (i := i + 1 + 1) (by omega)) ?_
  refine (hc.setLinks hv (some (tmp.getD i 0)) (some (tmp.getD (i + 1 + 1) 0))).bind
    fun cells' hc' => ?_
  refine (hc'.read hv).bind ?_
  rintro _ rfl
  have hsplit : tmp.take (i + 1 + 1) = tmp.take i ++ [tmp.getD i 0] ++ [tmp.getD (i + 1) 0] := by
    rw [take_add_one_eq (i := i + 1) (by omega), take_add_one_eq (i := i) (by omega)]
  rw [take_add_one_eq (by omega)] at hheaded
  refine (hheaded.next (hsplit ▸ hn.take _) (fun y hy => ?_)
    fun header key => (cells', header, key)).mono ?_
  · rw [← hsplit] at hy
    exact hlen ▸ hsize y (mem_of_mem_take hy)
  · rintro _ ⟨header', rfl, hopen, hlen'⟩
    refine ⟨⟨_, _, hc', fun j hj => ?_, ?_⟩, rfl, hsplit ▸ hopen, hlen'.trans hlen⟩
    · rcases lt_or_ge i j with hij | hij
      · obtain rfl : j = i + 1 := by omega
        refine ⟨?_, ?_⟩
        · rw [update_self, if_neg (by omega), Nat.add_sub_cancel,
            getElem?_eq_getD (by omega)]
        · rw [update_self, getElem?_eq_getD (by omega)]
      · exact (hle j hij).update hn.nodup (by omega) (by omega) (by omega) _ _
    · exact hlast.update hn.nodup (by omega) (by omega) (by omega) _ _

lemma SortedNodes.linkEnds (hn : SortedNodes n key tmp) (hc : Cells n cells key prev next)
    (hsize : key (tmp.getD 0 0) < size) :
    Returns (linkEnds cells size (tmp.getD 0 0) (tmp.getD 1 0) (tmp.getD (tmp.length - 1) 0)
      (tmp.getD (tmp.length - 2) 0) (key (tmp.getD 0 0))) (Pass n key tmp size 0) := by
  have htwo := hn.two
  have hmem : ∀ i < tmp.length, tmp.getD i 0 < n :=
    fun i hi => hn.lt _ (mem_of_getElem? (getElem?_eq_getD hi))
  refine (hc.setLinks (hmem 0 (by omega)) none (some (tmp.getD 1 0))).bind fun c1 h1 => ?_
  refine (h1.setLinks (hmem (tmp.length - 1) (by omega)) (some (tmp.getD (tmp.length - 2) 0))
    none).bind fun c2 h2 => ?_
  have hempty : Headed (replicate size ⟨none, none⟩) key [] := by
    intro j hj
    rw [length_replicate] at hj
    rw [getElem?_replicate, if_pos hj]
    rfl
  refine (hempty.openRun (by simpa using hsize) rfl).bind ?_
  rintro header ⟨hopen, hlen⟩
  refine .pure ⟨⟨_, _, h2, fun j hj => ?_, ?_⟩, rfl, ?_, by simpa using hlen⟩
  · obtain rfl : j = 0 := by omega
    refine LinkedAt.update hn.nodup (by omega) (by omega) (by omega) ⟨?_, ?_⟩ _ _
    · rw [update_self, if_pos rfl]
    · rw [update_self, getElem?_eq_getD (by omega)]
  · refine ⟨?_, ?_⟩
    · rw [update_self, if_neg (by omega), getElem?_eq_getD (by omega)]
      rfl
    · rw [update_self, getElem?_eq_none (by omega)]
  · rw [take_add_one_eq (by omega)]
    exact hopen

variable {S : StdSort ℕ}

/-- The sequence that `ReConstruct` sorts. -/
lemma sortedNodes_run (S : StdSort ℕ) (hn : 2 ≤ n) {keyOf : ℕ → ℕ}
    (hkey : ∀ i < n, keyOf i = key i) :
    SortedNodes n key (S.run (fun a b => decide (keyOf b < keyOf a)) (range n)) ∧
      (S.run (fun a b => decide (keyOf b < keyOf a)) (range n)).Perm (range n) := by
  have hw : StrictWeak fun a b => decide (keyOf b < keyOf a) :=
    StrictWeak.of_key (fun a => OrderDual.toDual (keyOf a)) fun a b => by simp
  have hp := S.perm hw (range n)
  have hlt : ∀ y ∈ S.run (fun a b => decide (keyOf b < keyOf a)) (range n), y < n :=
    fun y hy => mem_range.mp (hp.mem_iff.mp hy)
  refine ⟨⟨hp.nodup_iff.mpr nodup_range, ?_, hlt, by simpa [hp.length_eq] using hn⟩, hp⟩
  refine List.Pairwise.imp_of_mem ?_ (S.sorted hw (range n))
  intro a b ha hb hab
  rw [decide_eq_true_eq, not_lt, hkey a (hlt a ha), hkey b (hlt b hb)] at hab
  exact hab

lemma Cells.reConstruct (S : StdSort ℕ) (hc : Cells n h.linkedList key prev next) (hn : 2 ≤ n)
    (hsize : h.heapsize = n) :
    Returns (h.reConstruct S) fun h' => ∃ l, l.Perm (range n) ∧ Holds n h' l key ∧
      h'.update = h.update := by
  have hkeyOf : ∀ i < n, (h.linkedList[i]?.map RorderListElement.key).getD 0 = key i := by
    intro i hi
    rw [hc.get i hi]
    rfl
  obtain ⟨hnodes, hp⟩ := sortedNodes_run S hn hkeyOf
  unfold UnitHeap.reConstruct
  dsimp only
  rw [hsize]
  set tmp := S.run (fun a b => decide ((h.linkedList[b]?.map RorderListElement.key).getD 0
    < (h.linkedList[a]?.map RorderListElement.key).getD 0)) (range n) with htmp
  have htwo := hnodes.two
  have hget : ∀ i < tmp.length, tmp.getD i 0 < n :=
    fun i hi => hnodes.lt _ (mem_of_getElem? (getElem?_eq_getD hi))
  refine .bind_eq (getElem?_eq_getD (i := 0) (by omega)) ?_
  refine .bind_eq (getElem?_eq_getD (i := 1) (by omega)) ?_
  refine .bind (.of_eq (getLast?_eq_getElem?.trans
    (getElem?_eq_getD (i := tmp.length - 1) (by omega))) rfl) ?_
  rintro _ rfl
  refine .bind_eq (getElem?_eq_getD (i := tmp.length - 2) (by omega)) ?_
  refine (hc.read (hget 0 (by omega))).bind ?_
  rintro _ rfl
  set size := max (key (tmp.getD 0 0) + 1) h.header.length with hsz
  -- the first node has the highest key
  have hkeys : ∀ y ∈ tmp, key y < size := by
    intro y hy
    obtain ⟨i, hi, rfl⟩ := getElem_of_mem hy
    have hle : key (tmp.get ⟨i, hi⟩) ≤ key (tmp.getD 0 0) := by
      rw [getD_eq_getElem _ _ (by omega)]
      rcases Nat.eq_zero_or_pos i with rfl | hpos
      · exact le_rfl
      · exact pairwise_iff_getElem.mp hnodes.sorted 0 i (by omega) hi hpos
    exact lt_of_le_of_lt hle (by omega)
  refine (hnodes.linkEnds hc (by omega)).bind fun s₀ hs₀ => ?_
  refine .bind (.foldlM_range (P := Pass n key tmp size) (tmp.length - 2)
    (fun i hi s hs => hs.linkTurn hnodes hkeys hi) hs₀) ?_
  rintro ⟨cells, header, _⟩ ⟨⟨prev', next', hc', hle, hlast⟩, rfl, hheaded, hlen⟩
  refine (hc'.read (hget (tmp.length - 1) (by omega))).bind ?_
  rintro _ rfl
  have hall : tmp.take (tmp.length - 2) ++ [tmp.getD (tmp.length - 2) 0]
      ++ [tmp.getD (tmp.length - 1) 0] = tmp := by
    rw [← take_add_one_eq (by omega), show tmp.length - 1 = tmp.length - 2 + 1 by omega,
      ← take_add_one_eq (by omega), take_of_length_le (by omega)]
  rw [take_add_one_eq (by omega)] at hheaded
  refine (hheaded.closeRuns (hall.symm ▸ hnodes.sorted)
    fun y hy => hlen ▸ hkeys y (hall ▸ hy)).bind ?_
  rintro header' ⟨hclosed, hlen'⟩
  rw [hall] at hclosed
  refine .pure ⟨tmp, hp, ⟨⟨prev', next', hc', isDList_of_linkedAt fun j hj => ?_⟩,
    hnodes.nodup, hnodes.lt, hnodes.sorted, fun y hy => ?_, hclosed, ?_⟩, rfl⟩
  · rcases lt_or_ge (tmp.length - 2) j with hj' | hj'
    · obtain rfl : j = tmp.length - 1 := by omega
      exact hlast
    · exact hle j hj'
  · rw [hlen', hlen]
    exact hkeys y hy
  · rw [head?_eq_getElem?, getElem?_eq_getD (by omega)]

end UnitHeap

end Rvanns.Faiss
