import Rvanns.Faiss.Equiv.Layout.Rcm
import Rvanns.Faiss.Equiv.Layout.UnitHeapBuild
import Rvanns.Faiss.Equiv.Layout.UnitHeapCounts
import Rvanns.Faiss.Layout.Gorder

/-!
# The Gorder layout is a numbering

The value of a node never falls below the number of times the nodes of the window touch it, and so
never below zero.
-/

namespace Rvanns.Faiss

open Cpp List UnitHeap

namespace GorderGraph

variable {n : ℕ} {g : GorderGraph} {live : List ℕ} {lower : ℕ → ℤ} {s : Counting} {u v : ℕ}

/-! ### What a node touches -/

structure Over (n : ℕ) (g : GorderGraph) : Prop where
  out : IsGraph n g.outGraph
  into : IsGraph n g.inGraph
  outdegree : g.outdegree.length = n

def outs (g : GorderGraph) (u : ℕ) : List ℕ := g.outGraph.getD u []

def ins (g : GorderGraph) (u : ℕ) : List ℕ := g.inGraph.getD u []

def deg (g : GorderGraph) (u : ℕ) : ℕ := g.outdegree.getD u 0

def share (g : GorderGraph) (v : ℕ) : List ℕ := if g.deg v ≤ g.hugevertex then g.outs v else []

def via (g : GorderGraph) (u : ℕ) : List ℕ :=
  if g.deg u ≤ g.hugevertex then u :: (if 1 < g.deg u then g.outs u else []) else []

def touch (g : GorderGraph) (q : ℕ) : List ℕ := g.share q ++ (g.ins q).flatMap g.via

lemma Over.getElem?_outdegree (hg : g.Over n) (hu : u < n) : g.outdegree[u]? = some (g.deg u) :=
  getElem?_eq_getD (hg.outdegree.symm ▸ hu) 0

lemma getElem?_eq_row (hg : IsGraph n graph) (hu : u < n) : graph[u]? = some (graph.getD u []) :=
  getElem?_eq_getD (hg.length.symm ▸ hu) []

lemma lt_of_mem_row (hg : IsGraph n graph) (hw : w ∈ graph.getD u []) : w < n := by
  rw [getD_eq_getElem?_getD] at hw
  cases hrow : graph[u]? with
  | none =>
    rw [hrow] at hw
    cases hw
  | some row =>
    rw [hrow] at hw
    exact hg.lt row (mem_of_getElem? hrow) w hw

/-! ### Marks -/

def owed (g : GorderGraph) (marks : List Bool) (w : ℕ) : ℕ :=
  ((range marks.length).map fun u => if marks[u]? = some true then (g.outs u).count w else 0).sum

variable {marks : List Bool}

lemma owed_set (hu : u < marks.length) (m : Bool) (w : ℕ) :
    g.owed (marks.set u m) w + (if marks[u]? = some true then (g.outs u).count w else 0)
      = g.owed marks w + if m then (g.outs u).count w else 0 := by
  have hmap : (fun x => if (marks.set u m)[x]? = some true then (g.outs x).count w else 0)
      = Function.update (fun x => if marks[x]? = some true then (g.outs x).count w else 0) u
          (if m then (g.outs u).count w else 0) := by
    funext x
    rw [Function.update_apply, getElem?_set_of_lt hu]
    by_cases hxu : x = u
    · subst hxu
      cases m <;> simp
    · rw [if_neg hxu, if_neg (Ne.symm hxu)]
  rw [owed, length_set, hmap]
  exact sum_map_update nodup_range (mem_range.mpr hu)
    (fun x => if marks[x]? = some true then (g.outs x).count w else 0) _

/-! ### The counting phases -/

def Good (n : ℕ) (g : GorderGraph) (live : List ℕ) (lower : ℕ → ℤ) (s : Counting) : Prop :=
  ∃ val, UnitHeap.Queued n s.unitheap live val ∧ s.popvexist.length = n ∧
    ∀ w, lower w + g.owed s.popvexist w ≤ val w

lemma Good.mono (hs : Good n g live lower s) (h : ∀ w, lower' w ≤ lower w) :
    Good n g live lower' s := by
  obtain ⟨val, hq, hlen, hval⟩ := hs
  refine ⟨val, hq, hlen, fun w => ?_⟩
  have := h w
  have := hval w
  omega

variable {h : UnitHeap}

section Steps

variable {step : UnitHeap → ℕ → Option UnitHeap} (c : ℤ)
  (hstep : ∀ {h val x}, Queued n h live val → x < n →
    Returns (step h x) (Queued n · live fun y => val y + if y = x then c else 0))
  (hs : Good n g live lower ⟨h, marks⟩)

include hstep hs

lemma Good.foldlM (ws : List ℕ) (hws : ∀ w ∈ ws, w < n) :
    Returns (ws.foldlM step h) fun h' =>
      Good n g live (fun w => lower w + c * ws.count w) ⟨h', marks⟩ := by
  obtain ⟨val, hq, hlen, hval⟩ := hs
  refine (hq.foldlM c hstep ws hws).mono fun h' hq' => ⟨_, hq', hlen, fun w => ?_⟩
  have := hval w
  dsimp only at this ⊢
  omega

lemma Good.single (hu : u < n) :
    Returns (step h u) fun h' =>
      Good n g live (fun w => lower w + c * [u].count w) ⟨h', marks⟩ := by
  have hone := hs.foldlM c hstep [u] (by simpa using hu)
  rwa [foldlM_cons, show (List.foldlM step · [] : UnitHeap → Option UnitHeap) = pure
    from rfl, bind_pure] at hone

end Steps

lemma count_cons_eq (u w : ℕ) (l : List ℕ) :
    ((u :: l).count w : ℤ) = ([u].count w : ℕ) + (l.count w : ℕ) := by
  rw [← singleton_append, count_append]
  rfl

lemma Good.set (hs : Good n g live lower ⟨h, marks⟩) (hu : u < n) (m : Bool) :
    Good n g live (fun w => lower w + (if marks[u]? = some true then (g.outs u).count w else 0 : ℕ)
      - (if m then (g.outs u).count w else 0 : ℕ)) ⟨h, marks.set u m⟩ := by
  obtain ⟨val, hq, hlen, hval⟩ := hs
  have hlen' : marks.length = n := hlen
  refine ⟨val, hq, by simpa using hlen', fun w => ?_⟩
  have hset := owed_set (g := g) (hlen'.symm ▸ hu) m w
  have := hval w
  dsimp only at this ⊢
  omega

section

variable (hg : g.Over n)

include hg

lemma Good.popVia (hs : Good n g live lower s) (hu : u < n) (v : ℕ) :
    Returns (g.popVia v s u) (Good n g live fun w => lower w + -1 * (g.via u).count w) := by
  obtain ⟨-, -, hlen, -⟩ := id hs
  unfold GorderGraph.popVia via
  refine .bind_eq (hg.getElem?_outdegree hu) ?_
  split
  · refine (hs.single (-1) (·.decrementKey) hu).bind fun h₁ hs₁ => ?_
    split
    · refine .bind_eq (getElem?_eq_row hg.out hu) ?_
      split
      · refine .bind_eq (wr_of_lt (hlen.symm ▸ hu) true) ?_
        refine .pure ((hs₁.set hu true).mono fun w => ?_)
        rw [count_cons_eq, if_pos rfl]
        omega
      · refine (hs₁.foldlM (-1) (·.decrementKey) _ fun w hw => lt_of_mem_row hg.out hw).bind
          fun h₂ hs₂ => .pure (hs₂.mono fun w => ?_)
        rw [count_cons_eq]
        exact le_of_eq (by unfold outs; omega)
    · exact .pure hs₁
  · exact .pure (by simpa using hs)

lemma Good.pushVia (hs : Good n g live lower s) (hu : u < n) :
    Returns (g.pushVia s u) (Good n g live fun w => lower w + 1 * (g.via u).count w) := by
  obtain ⟨-, -, hlen, -⟩ := id hs
  unfold GorderGraph.pushVia via
  refine .bind_eq (hg.getElem?_outdegree hu) ?_
  split
  · refine (hs.single 1 (·.raise) hu).bind fun h₁ hs₁ => ?_
    refine (Returns.getElem? (hlen.symm ▸ hu)).bind fun marked hmarked => ?_
    cases marked with
    | true =>
      refine Returns.pure ((hs₁.set hu false).mono fun w => ?_)
      rw [count_cons_eq, if_pos hmarked, if_neg Bool.false_ne_true]
      split
      · omega
      · rw [count_nil]
        omega
    | false =>
      rw [if_neg Bool.false_ne_true]
      split
      · refine .bind_eq (getElem?_eq_row hg.out hu) ?_
        refine (hs₁.foldlM 1 (·.raise) _ fun w hw => lt_of_mem_row hg.out hw).bind
          fun h₂ hs₂ => Returns.pure (hs₂.mono fun w => ?_)
        rw [count_cons_eq]
        exact le_of_eq (by unfold outs; omega)
      · exact Returns.pure hs₁
  · exact Returns.pure (by simpa using hs)

lemma Good.seedVia (hs : Good n g live lower ⟨h, marks⟩) (hu : u < n) :
    Returns (g.seedVia h u) fun h' =>
      Good n g live (fun w => lower w + 1 * (g.via u).count w) ⟨h', marks⟩ := by
  unfold GorderGraph.seedVia via
  refine .bind_eq (hg.getElem?_outdegree hu) ?_
  split
  · refine (hs.single 1 (·.raise) hu).bind fun h₁ hs₁ => ?_
    split
    · refine .bind_eq (getElem?_eq_row hg.out hu) ?_
      refine (hs₁.foldlM 1 (·.raise) _ fun w hw => lt_of_mem_row hg.out hw).mono
        fun h₂ hs₂ => hs₂.mono fun w => ?_
      rw [count_cons_eq]
      exact le_of_eq (by unfold outs; omega)
    · exact .pure hs₁
  · exact .pure (by simpa using hs)

lemma Over.outShare_eq (hv : v < n) : g.outShare v = some (g.share v) := by
  unfold outShare share
  rw [hg.getElem?_outdegree hv]
  show (if _ then _ else _) = _
  split
  · exact getElem?_eq_row hg.out hv
  · rfl

lemma Over.lt_of_mem_share (hw : w ∈ g.share v) : w < n := by
  unfold share at hw
  split at hw
  · exact lt_of_mem_row hg.out hw
  · cases hw

end

lemma count_flatMap_concat (f : ℕ → List ℕ) (pre : List ℕ) (u w : ℕ) :
    (((pre ++ [u]).flatMap f).count w : ℤ)
      = ((pre.flatMap f).count w : ℕ) + ((f u).count w : ℕ) := by
  rw [flatMap_append, count_append, flatMap_singleton]
  rfl

/-- Either change of the window: a share of the out-neighbours, then the in-neighbours. -/
lemma Good.touches (hg : g.Over n) (hp : p < n) (c : ℤ)
    (hstep : ∀ {h val x}, Queued n h live val → x < n →
      Returns (step h x) (Queued n · live fun y => val y + if y = x then c else 0))
    (hturn : ∀ {lower s u}, Good n g live lower s → u < n →
      Returns (turn s u) (Good n g live fun w => lower w + c * (g.via u).count w))
    (hs : Good n g live lower s) :
    Returns (do
      let share ← g.outShare p
      let h ← share.foldlM step s.unitheap
      let row ← g.inGraph[p]?
      row.foldlM turn ⟨h, s.popvexist⟩)
      (Good n g live fun w => lower w + c * (g.touch p).count w) := by
  refine .bind_eq (hg.outShare_eq hp) ?_
  refine (hs.foldlM c hstep (g.share p) fun w hw => hg.lt_of_mem_share hw).bind fun h₁ hs₁ => ?_
  refine .bind_eq (getElem?_eq_row hg.into hp) ?_
  refine .mono (.foldlM (P := fun pre t => Good n g live
    (fun w => lower w + c * (g.share p).count w + c * (pre.flatMap g.via).count w) t) _ ?_ ?_)
    fun t ht => ht.mono fun w => ?_
  · intro pre u post heq t ht
    have hu : u < n := lt_of_mem_row hg.into (u := p) (by rw [heq]; simp)
    refine (hturn ht hu).mono fun t' ht' => ht'.mono fun w => ?_
    rw [count_flatMap_concat, Int.mul_add]
    omega
  · exact hs₁.mono fun w => by simp
  · unfold touch ins
    rw [count_append, Int.natCast_add, Int.mul_add]
    omega

lemma Good.leaveWindow (hg : g.Over n) (hs : Good n g live lower s) (hp : popv < n) (v : ℕ) :
    Returns (g.leaveWindow v popv s)
      (Good n g live fun w => lower w + -1 * (g.touch popv).count w) :=
  hs.touches hg hp (-1) (·.decrementKey) fun ht hu => ht.popVia hg hu v

lemma Good.enterWindow (hg : g.Over n) (hs : Good n g live lower s) (hv : v < n) :
    Returns (g.enterWindow v s) (Good n g live fun w => lower w + 1 * (g.touch v).count w) :=
  hs.touches hg hv 1 (·.raise) fun ht hu => ht.pushVia hg hu

/-! ### The main loop -/

def windowCount (g : GorderGraph) (order : List ℕ) (w : ℕ) : ℤ :=
  ((order.drop (order.length - window)).flatMap g.touch).count w

lemma windowCount_concat_of_lt (h : order.length < window) (v w : ℕ) :
    g.windowCount (order ++ [v]) w = g.windowCount order w + (g.touch v).count w := by
  unfold windowCount
  rw [length_append, length_singleton, Nat.sub_eq_zero_of_le (by omega),
    Nat.sub_eq_zero_of_le (by omega), drop_zero, drop_zero, count_flatMap_concat]

lemma windowCount_concat_of_le (h : window ≤ order.length)
    (hp : order[order.length - window]? = some popv) (v w : ℕ) :
    g.windowCount (order ++ [v]) w
      = g.windowCount order w - (g.touch popv).count w + (g.touch v).count w := by
  obtain ⟨hlt, rfl⟩ := List.getElem?_eq_some_iff.mp hp
  unfold windowCount
  have hsub : order.length + 1 - window = order.length - window + 1 := by omega
  rw [length_append, length_singleton, hsub, drop_append_of_le_length (by omega),
    count_flatMap_concat, drop_eq_getElem_cons hlt, flatMap_cons, count_append]
  omega

structure Placed (n : ℕ) (g : GorderGraph) (zero : List ℕ) (s : Counting × List ℕ) : Prop where
  state : ∃ live, (s.2 ++ zero ++ live).Perm (range n) ∧
    Good n g live (g.windowCount s.2) s.1

lemma Good.slideWindow (hg : g.Over n) (horder : ∀ q ∈ order, q < n)
    (hs : Good n g live (g.windowCount order) s) (v : ℕ) :
    Returns (g.slideWindow (order ++ [v]) order.length v s) (Good n g live
      fun w => g.windowCount (order ++ [v]) w - (g.touch v).count w) := by
  unfold GorderGraph.slideWindow
  split
  · next hfull =>
    have hpos : 0 < window := by decide
    obtain ⟨popv, hp⟩ : ∃ popv, order[order.length - window]? = some popv :=
      ⟨_, getElem?_eq_getElem (by omega)⟩
    have hp' : (order ++ [v])[order.length - window]? = some popv := by
      rw [getElem?_append_left (by omega), hp]
    refine .bind_eq hp' ?_
    refine (hs.leaveWindow hg (horder popv (mem_of_getElem? hp)) v).mono fun t ht =>
      ht.mono fun w => ?_
    rw [windowCount_concat_of_le hfull hp]
    omega
  · next hroom =>
    refine .pure (hs.mono fun w => ?_)
    rw [windowCount_concat_of_lt (by omega)]
    omega

lemma Placed.placeTurn (hg : g.Over n) {zero : List ℕ} {s : Counting × List ℕ}
    (hs : Placed n g zero s) (hmore : s.2.length + zero.length < n) :
    Returns (g.placeTurn s s.2.length) fun s' =>
      Placed n g zero s' ∧ s'.2.length = s.2.length + 1 := by
  obtain ⟨⟨h, marks⟩, order⟩ := s
  obtain ⟨live, hperm, val, hq, hlen, hval⟩ := hs.state
  dsimp only at hperm hq hlen hval hmore
  have hlt : ∀ q ∈ order ++ zero ++ live, q < n := fun q hq => mem_range.mp (hperm.mem_iff.mp hq)
  have hne : live ≠ [] := by
    rintro rfl
    have := hperm.length_eq
    simp only [length_append, length_nil, length_range] at this
    omega
  have hval0 : ∀ y ∈ live, 0 ≤ val y := by
    intro y _
    have := hval y
    unfold windowCount at this
    omega
  refine (hq.extractMax hne hval0).bind ?_
  rintro ⟨v, h₁⟩ ⟨hv, hmark⟩
  refine hmark.bind fun h₂ hq₂ => ?_
  have hgood : Good n g (live.erase v) (g.windowCount order) ⟨h₂, marks⟩ := ⟨val, hq₂, hlen, hval⟩
  refine (hgood.slideWindow hg (fun q hq => hlt q (by simp [hq])) v).bind fun t ht => ?_
  refine (ht.enterWindow hg (hlt v (by simp [hv]))).bind fun t' ht' => ?_
  refine .pure ⟨⟨live.erase v, ?_, ht'.mono fun w => ?_⟩, by simp⟩
  · -- the node moves from the heap to the order
    have hmove : (order ++ [v] ++ zero ++ live.erase v).Perm
      (order ++ (zero ++ v :: live.erase v)) := by
      simp only [append_assoc, singleton_append]
      exact List.Perm.append_left order perm_middle.symm
    have hback := (perm_cons_erase hv).symm.append_left zero
    refine hmove.trans ((hback.append_left order).trans ?_)
    rw [← append_assoc]
    exact hperm
  · show g.windowCount (order ++ [v]) w ≤ _
    omega

lemma placeFirst_spec (hg : g.Over n)
    (hq : UnitHeap.Queued n h live fun _ => 0) (htmp : tmpindex ∈ live) (hlt : tmpindex < n) :
    Returns (g.placeFirst h tmpindex) fun h' =>
      Good n g (live.erase tmpindex) (g.windowCount [tmpindex]) ⟨h', replicate n false⟩ := by
  have howed : ∀ w, g.owed (replicate n false) w = 0 := by
    intro w
    unfold owed
    rw [List.sum_eq_zero_iff_forall_eq_nat]
    intro x hx
    obtain ⟨u, -, rfl⟩ := mem_map.mp hx
    rw [if_neg (by simp [getElem?_replicate])]
  refine (hq.markDelete htmp).bind fun h₁ hq₁ => ?_
  refine .bind_eq (getElem?_eq_row hg.into hlt) ?_
  have hstart : Good n g (live.erase tmpindex) (fun _ => 0) ⟨h₁, replicate n false⟩ :=
    ⟨_, hq₁, by simp, fun w => by simp [howed]⟩
  refine .bind (.foldlM (P := fun pre h => Good n g (live.erase tmpindex)
    (fun w => ((pre.flatMap g.via).count w : ℕ)) ⟨h, replicate n false⟩) _ ?_ ?_)
    fun h₂ hs₂ => ?_
  · intro pre u post heq t ht
    have hu : u < n := lt_of_mem_row hg.into (u := tmpindex) (by rw [heq]; simp)
    refine (ht.seedVia hg hu).mono fun t' ht' => ht'.mono fun w => ?_
    rw [count_flatMap_concat, one_mul]
  · exact hstart.mono fun w => by simp
  · refine .bind_eq (hg.outShare_eq hlt) ?_
    refine (hs₂.foldlM 1 (·.raise) (g.share tmpindex) fun w hw => hg.lt_of_mem_share hw).mono
      fun h₃ hs₃ => hs₃.mono fun w => ?_
    show ((([tmpindex].drop _).flatMap g.touch).count w : ℤ) ≤ _
    rw [length_singleton, Nat.sub_eq_zero_of_le (by decide), drop_zero,
      flatMap_singleton, touch, count_append, ins]
    omega

end GorderGraph

/-! ### Preparation -/

variable {n : ℕ}

lemma addEdges_isGraph (S : StdSort ℕ) (hw : h.WellFormed) (hi : i < h.levels.length)
    (hs : IsGraph h.levels.length s.1 ∧ IsGraph h.levels.length s.2) :
    Returns (addEdges S h s i) fun s' =>
      IsGraph h.levels.length s'.1 ∧ IsGraph h.levels.length s'.2 := by
  refine (hw.returns_neighborIds hi).bind fun ids hids => ?_
  refine .bind (P := fun s' : List (List ℕ) × List (List ℕ) =>
    IsGraph h.levels.length s'.1 ∧ IsGraph h.levels.length s'.2) ?_ ?_
  · refine .foldlM_inv ids (fun v hv t ht => ?_) hs
    refine (ht.1.pushBackAt hi (hids v hv)).bind fun out hout => ?_
    exact (ht.2.pushBackAt (hids v hv) hi).bind fun into hinto => .pure ⟨hout, hinto⟩
  · rintro ⟨out, into⟩ ⟨hout, hinto⟩
    refine .bind (P := IsGraph h.levels.length) ?_
      fun out' hout' => .pure ⟨hout', hinto⟩
    refine (hout.returns_getElem? hi).map fun row hrow => ⟨by simpa using hout.length, ?_⟩
    intro row' hrow' u hu
    rcases mem_or_eq_of_mem_set hrow' with hmem | rfl
    · exact hout.lt row' hmem u hu
    · exact hrow u ((S.perm strictWeak_lt row).mem_iff.mp hu)

lemma countIndegrees_length (hg : IsGraph n outGraph) :
    Returns (countIndegrees outGraph n) fun indegree => indegree.length = n := by
  refine .foldlM_inv _ (fun i hi indegree hlen => ?_) (by simp)
  refine (hg.returns_getElem? (mem_range.mp hi)).bind fun row hrow => ?_
  refine .foldlM_inv row (fun v hv d hd => ?_) hlen
  exact (Returns.getElem? (hd.symm ▸ hrow v hv)).map fun _ _ => by simpa using hd

structure KeysSet (n : ℕ) (indegree : List ℕ) (i : ℕ) (h : UnitHeap) : Prop where
  cells : ∃ prev next, UnitHeap.Cells n h.linkedList
    (fun y => if y < i then indegree.getD y 0 else 0) prev next
  size : h.heapsize = n
  length : h.update.length = n
  update : ∀ y < i, h.update[y]? = some (some (-(indegree.getD y 0 : ℤ)))

lemma keysSet_create (n : ℕ) (indegree : List ℕ) : KeysSet n indegree 0 (create n) := by
  refine ⟨⟨fun y => if y = 0 then none else some (y - 1),
    fun y => if y + 1 = n then none else some (y + 1), by simp [create], fun y hy => ?_⟩,
    rfl, by simp [create], by omega⟩
  simp [create, hy]

lemma KeysSet.setKeys (hlen : indegree.length = n) (hi : i < n) (hs : KeysSet n indegree i h) :
    Returns (setKeys indegree h i) (KeysSet n indegree (i + 1)) := by
  obtain ⟨⟨prev, next, hc⟩, hsize, hulen, hupdate⟩ := hs
  refine .bind_eq (getElem?_eq_getD (hlen.symm ▸ hi) 0) ?_
  refine (hc.setKey hi (indegree.getD i 0)).bind fun cells hc' => ?_
  refine .bind_eq (wr_of_lt (hulen.symm ▸ hi) _) ?_
  have hkey : Function.update (fun y => if y < i then indegree.getD y 0 else 0) i
      (indegree.getD i 0) = fun y => if y < i + 1 then indegree.getD y 0 else 0 := by
    funext y
    rw [Function.update_apply]
    by_cases hyi : y = i
    · subst hyi
      rw [if_pos rfl, if_pos (by omega)]
    · rw [if_neg hyi]
      by_cases hlt : y < i
      · rw [if_pos hlt, if_pos (by omega)]
      · rw [if_neg hlt, if_neg (by omega)]
  refine .pure ⟨⟨prev, next, hkey ▸ hc'⟩, hsize, by simpa using hulen, fun y hy => ?_⟩
  rw [getElem?_set_of_lt (hulen.symm ▸ hi)]
  split
  · next heq => rw [heq]
  · exact hupdate y (by omega)

lemma KeysSet.reConstruct (S : StdSort ℕ) (hn : 2 ≤ n) (hs : KeysSet n indegree n h) :
    Returns (h.reConstruct S) (UnitHeap.Queued n · (range n) fun _ => 0) := by
  obtain ⟨⟨prev, next, hc⟩, hsize, hulen, hupdate⟩ := hs
  refine (hc.reConstruct S hn hsize).mono ?_
  rintro h' ⟨l, hp, hholds, hup⟩
  refine ⟨l, _, hp, hholds, by rw [hup, hulen], fun y hy => ?_, fun y hy hnot => ?_⟩
  · have hyn : y < n := mem_range.mp (hp.mem_iff.mp hy)
    refine ⟨-(indegree.getD y 0 : ℤ), by omega, by rw [hup, hupdate y hyn], ?_⟩
    rw [if_pos hyn]
    omega
  · exact absurd (hp.mem_iff.mpr (mem_range.mpr hy)) hnot

/-! ### The first node -/

structure SeedSearch.Inv (n i : ℕ) (s : SeedSearch) : Prop where
  state : ∃ live, (s.zero ++ live).Perm (range n) ∧
    UnitHeap.Queued n s.unitheap live (fun _ => 0) ∧ (0 < i → s.tmpindex ∈ live)
  zero_lt : ∀ z ∈ s.zero, z < i
  tmp_lt : 0 < i → s.tmpindex < i
  weight : i = 0 → s.tmpweight = -1

lemma SeedSearch.Inv.seedTurn (hin : indegree.length = n)
    (hout : outdegree.length = n) (hi : i < n) (hs : s.Inv n i) :
    Returns (seedTurn indegree outdegree s i) (SeedSearch.Inv n (i + 1)) := by
  obtain ⟨⟨live, hp, hq, htmp⟩, hzero, htmplt, hweight⟩ := hs
  have hlive : i ∈ live := by
    have hmem := hp.mem_iff.mpr (mem_range.mpr hi)
    rcases mem_append.mp hmem with hmem | hmem
    · exact absurd (hzero i hmem) (by omega)
    · exact hmem
  refine (Returns.getElem? (hin.symm ▸ hi)).bind fun din _ => ?_
  refine (Returns.getElem? (hout.symm ▸ hi)).bind fun dout _ => ?_
  split
  · refine .pure ⟨⟨live, hp, hq, fun _ => hlive⟩, fun z hz => ?_, fun _ => ?_, by omega⟩
    · have := hzero z hz
      omega
    · show i < i + 1
      omega
  · next hnot =>
    -- the first node is always taken by the branch above
    have hpos : 0 < i := by
      rcases Nat.eq_zero_or_pos i with h0 | h0
      · omega
      · exact h0
    have htmp' := htmp hpos
    split
    · refine (hq.markDelete hlive).bind fun h' hq' => .pure ?_
      refine ⟨⟨live.erase i, ?_, hq', fun _ => ?_⟩, fun z hz => ?_, fun _ => ?_, by omega⟩
      · refine List.Perm.trans ?_ hp
        rw [append_assoc]
        exact (perm_cons_erase hlive).symm.append_left s.zero
      · have hne : s.tmpindex ≠ i := by omega
        exact (mem_erase_of_ne hne).mpr htmp'
      · exact forall_mem_concat.mpr
          ⟨fun z hz => (hzero z hz).trans (Nat.lt_succ_self i), Nat.lt_succ_self i⟩ z hz
      · show s.tmpindex < i + 1
        omega
    · refine .pure ⟨⟨live, hp, hq, fun _ => htmp'⟩, fun z hz => ?_, fun _ => by omega,
        by omega⟩
      have := hzero z hz
      omega

/-! ### The permutation -/

lemma insertBeforeLast_perm (order zero : List ℕ) :
    (order.take (order.length - 1) ++ zero ++ order.drop (order.length - 1)).Perm
      (order ++ zero) := by
  conv_rhs => rw [← take_append_drop (order.length - 1) order]
  rw [append_assoc, append_assoc]
  exact List.Perm.append_left _ perm_append_comm

lemma generateGorderPermutation_isNumbering (S : StdSort ℕ) {h : HNSW} (hw : h.WellFormed) :
    Returns (generateGorderPermutation S h h.levels.length) (IsNumbering · h.levels.length) := by
  set n := h.levels.length with hn
  unfold generateGorderPermutation
  split
  · next hzero =>
    rw [hzero]
    exact .pure (.refl _)
  split
  · next hone =>
    rw [hone]
    exact .pure (.refl _)
  have htwo : 2 ≤ n := by omega
  refine .bind (.foldlM_inv _
    (fun i hi s hs => addEdges_isGraph S hw (mem_range.mp hi) hs)
    ⟨⟨by simp [hn], by simp⟩, ⟨by simp [hn], by simp⟩⟩) ?_
  rintro ⟨outGraph, inGraph⟩ ⟨hout, hinto⟩
  refine (countIndegrees_length hout).bind fun indegree hin => ?_
  have hg : GorderGraph.Over n ⟨outGraph, inGraph, outGraph.map length, Nat.sqrt n⟩ :=
    ⟨hout, hinto, by simpa using hout.length⟩
  refine .bind (.foldlM_range n (fun i hi s hs => KeysSet.setKeys hin hi hs)
    (keysSet_create n indegree)) fun heap hheap => ?_
  refine (hheap.reConstruct S htwo).bind fun heap hq => ?_
  refine .bind (.foldlM_range n
    (fun i hi s hs => SeedSearch.Inv.seedTurn hin hg.outdegree hi hs)
    ⟨⟨range n, .refl _, hq, by omega⟩, by simp, by omega, fun _ => rfl⟩) ?_
  intro seed hseed
  obtain ⟨live, hp, hq, htmp⟩ := hseed.state
  have htmp' := htmp (by omega)
  refine (GorderGraph.placeFirst_spec hg hq htmp' (hseed.tmp_lt (by omega))).bind
    fun heap hgood => ?_
  refine .bind (.foldlM_range (P := fun i s =>
    GorderGraph.Placed n ⟨outGraph, inGraph, outGraph.map length, Nat.sqrt n⟩ seed.zero s ∧
      s.2.length = i + 1) _ ?_ ⟨⟨live.erase seed.tmpindex, ?_, hgood⟩, rfl⟩) ?_
  · rintro i hi s ⟨hs, hslen⟩
    have hturn := hs.placeTurn hg (by omega)
    rw [hslen] at hturn
    exact hturn
  · refine List.Perm.trans ?_ hp
    refine perm_middle.symm.trans ?_
    exact (perm_cons_erase htmp').symm.append_left seed.zero
  · rintro ⟨counting, order⟩ ⟨⟨rest, hperm, -⟩, horder⟩
    dsimp only at hperm horder
    -- nothing is left in the heap
    have hrest : rest = [] := by
      have hlen' := hperm.length_eq
      simp only [length_append, length_range] at hlen'
      exact eq_nil_of_length_eq_zero (by omega)
    rw [hrest, append_nil] at hperm
    exact .pure ((insertBeforeLast_perm order seed.zero).trans hperm)

/-- **The Gorder layout**: the algorithm ends, and every node is placed exactly once, whether it has
edges or not. -/
theorem generateGorderPermutation_places_once (S : StdSort ℕ) {h : HNSW} (hw : h.WellFormed) :
    ∃ perm, generateGorderPermutation S h h.levels.length = some perm
      ∧ (∀ v < h.levels.length, perm.count v = 1) ∧ ∀ v ∈ perm, v < h.levels.length := by
  obtain ⟨perm, hperm, hnumbering⟩ := generateGorderPermutation_isNumbering S hw
  refine ⟨perm, hperm, fun v hv => ?_, fun v hv => hnumbering.mem_iff.mp hv⟩
  exact count_eq_one_of_mem hnumbering.nodup (hnumbering.mem_iff.mpr hv)

theorem generateGorderPermutation_loopAndIsolated :
    ∃ perm, generateGorderPermutation StdSort.insertion loopAndIsolated 3 = some perm
      ∧ (∀ v < 3, perm.count v = 1) ∧ ∀ v ∈ perm, v < 3 :=
  generateGorderPermutation_places_once StdSort.insertion loopAndIsolated_wellFormed

end Rvanns.Faiss
