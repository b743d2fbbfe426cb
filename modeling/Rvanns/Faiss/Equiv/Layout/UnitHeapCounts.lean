import Rvanns.Faiss.Equiv.Layout.UnitHeap

/-!
# The counters of the unit heap

The key of a node is not what the algorithm counts.
-/

namespace Rvanns.Faiss

open Cpp List Function

namespace UnitHeap

variable {n : ℕ} {h h' : UnitHeap} {l live a b : List ℕ} {key : ℕ → ℕ} {val : ℕ → ℤ} {x : ℕ}

structure Keeps (n : ℕ) (h : UnitHeap) (l : List ℕ) (key : ℕ → ℕ) (val : ℕ → ℤ) : Prop where
  holds : Holds n h l key
  length : h.update.length = n
  counts : ∀ y ∈ l, ∃ u ≤ 0, h.update[y]? = some (some u) ∧ (key y : ℤ) + u = val y
  marked : ∀ y < n, y ∉ l → h.update[y]? = some none

def Queued (n : ℕ) (h : UnitHeap) (live : List ℕ) (val : ℕ → ℤ) : Prop :=
  ∃ l key, l.Perm live ∧ Keeps n h l key val

lemma Keeps.remove (hk : Keeps n h (a ++ x :: b) key val) (hh : Holds n h' (a ++ b) key)
    (hu : h'.update = h.update.set x none) : Keeps n h' (a ++ b) key val := by
  have hx : x < h.update.length := hk.length.symm ▸ hk.holds.lt x (by simp)
  have hxnot : x ∉ a ++ b := (nodup_cons.mp (nodup_middle.mp hk.holds.nodup)).1
  have hget : ∀ y, h'.update[y]? = if x = y then some none else h.update[y]? :=
    fun y => hu ▸ getElem?_set_of_lt hx none y
  refine ⟨hh, by rw [hu, length_set, hk.length], fun y hy => ?_, fun y hy hnot => ?_⟩
  · have hxy : x ≠ y := fun heq => hxnot (heq ▸ hy)
    rw [hget, if_neg hxy]
    apply hk.counts
    rcases mem_append.mp hy with hy | hy <;> simp [hy]
  · rw [hget]
    split
    · rfl
    · next hxy =>
      refine hk.marked y hy fun hmem => hnot ?_
      simpa [Ne.symm hxy] using hmem

lemma perm_erase_of_perm (hp : (a ++ x :: b).Perm live) : (a ++ b).Perm (live.erase x) := by
  have hcons : (x :: (a ++ b)).Perm live := perm_middle.symm.trans hp
  simpa using hcons.erase x

lemma Queued.markDelete (hq : Queued n h live val) (hx : x ∈ live) :
    Returns (h.mark x >>= fun h => h.deleteElement x) (Queued n · (live.erase x) val) := by
  obtain ⟨l, key, hp, hk⟩ := hq
  obtain ⟨a, b, rfl⟩ := append_of_mem (hp.mem_iff.mpr hx)
  have hxlt : x < h.update.length := hk.length.symm ▸ hk.holds.lt x (by simp)
  have hmark : h.mark x = some { h with update := h.update.set x none } := by
    rw [mark, wr_of_lt hxlt, Option.map_some]
  refine .bind_eq hmark ?_
  obtain ⟨hcells, hnd, hlt, hs, hkey, hheaded, htop⟩ := hk.holds
  have hholds : Holds n { h with update := h.update.set x none } (a ++ x :: b) key :=
    ⟨hcells, hnd, hlt, hs, hkey, hheaded, htop⟩
  refine hholds.deleteElement.mono fun h' hh' => ?_
  exact ⟨a ++ b, key, perm_erase_of_perm hp, hk.remove hh'.1 hh'.2⟩

lemma Holds.totalKey_eq (hh : Holds n h l key) : h.totalKey = ((List.range n).map key).sum := by
  obtain ⟨prev, next, hc, -⟩ := hh.cells
  unfold totalKey
  congr 1
  apply ext_getElem?
  intro i
  rw [getElem?_map]
  rcases lt_or_ge i n with hi | hi
  · simp [hc.get i hi, hi]
  · rw [getElem?_eq_none (hc.length.symm ▸ hi), getElem?_eq_none (by simpa using hi)]
    rfl

lemma Keeps.lowered (hk : Keeps n h l key val) (hx : x ∈ l)
    (hu : h.update[x]? = some (some u)) (hneg : u < 0) (hl : Lowered n h h' x k u l key) :
    Queued n h' l val ∧ h'.totalKey < h.totalKey := by
  obtain ⟨l', hp, hholds⟩ := hl.holds
  have hulen := lt_length hu
  have hget : ∀ y, h'.update[y]? = if x = y then some (some (u.tdiv 2)) else h.update[y]? :=
    fun y => hl.update ▸ getElem?_set_of_lt hulen _ y
  constructor
  · refine ⟨l', _, hp, hholds, by rw [hl.update, length_set, hk.length], fun y hy => ?_,
      fun y hy hnot => ?_⟩
    · rw [hget]
      obtain ⟨u', hu0, hu', hval⟩ := hk.counts y (hp.mem_iff.mp hy)
      by_cases hxy : x = y
      · subst hxy
        rw [hu] at hu'
        cases hu'
        refine ⟨u.tdiv 2, (tdiv_two_bounds hneg).2, by rw [if_pos rfl], ?_⟩
        rw [update_self, hl.newkey]
        omega
      · refine ⟨u', hu0, by rw [if_neg hxy, hu'], ?_⟩
        rw [update_of_ne (.symm hxy), hval]
    · have hxy : x ≠ y := by
        rintro rfl
        exact hnot (hp.mem_iff.mpr hx)
      rw [hget, if_neg hxy]
      exact hk.marked y hy fun hmem => hnot (hp.mem_iff.mpr hmem)
  · rw [hholds.totalKey_eq, hk.holds.totalKey_eq]
    have hsum := sum_map_update nodup_range (mem_range.mpr (hk.holds.lt x hx)) key k
    have := hl.lower
    omega

lemma Queued.extractLoop (hq : Queued n h live val) (hne : live ≠ [])
    (hval : ∀ y ∈ live, 0 ≤ val y) :
    Returns (whileLoop extractTurn (h.totalKey + 1) h) fun r =>
      ∃ b key, (r.1 :: b).Perm live ∧ Keeps n r.2 (r.1 :: b) key val := by
  refine .whileLoop (P := fun h => Queued n h live val) totalKey ?_ hq (Nat.lt_succ_self _)
  rintro h ⟨l, key, hp, hk⟩
  obtain ⟨x, b, rfl⟩ := exists_cons_of_ne_nil (fun hl => hne (nil_perm.mp (hl ▸ hp)))
  have htop : h.top = some x := hk.holds.top
  obtain ⟨u, hu0, hu, huval⟩ := hk.counts x (by simp)
  have hdone : Turn.Meets (fun h' => Queued n h' live val ∧ h'.totalKey < h.totalKey)
      (fun r : ℕ × UnitHeap => ∃ b key, (r.1 :: b).Perm live ∧ Keeps n r.2 (r.1 :: b) key val)
      (if h.top = some x then Turn.done (x, h) else Turn.next h) := by
    rw [if_pos htop]
    exact ⟨b, key, hp, hk⟩
  refine .bind_eq htop ?_
  refine .bind_eq hu ?_
  by_cases hneg : u < 0
  · have hval0 : 0 ≤ (key x : ℤ) + u := huval ▸ hval x (hp.mem_iff.mp (by simp))
    rw [if_pos ⟨u, rfl, hneg⟩]
    refine (hk.holds.decreaseTop hu hneg hval0).bind fun h' hh' => .pure ?_
    rcases hh' with rfl | ⟨k, hl⟩
    · exact hdone
    · rw [if_neg hl.top]
      obtain ⟨⟨l', key', hp', hk'⟩, hlt⟩ := hk.lowered (by simp) hu hneg hl
      exact ⟨⟨l', key', hp'.trans hp, hk'⟩, hlt⟩
  · have hnot : ¬ ∃ z ∈ some u, z < 0 := by
      rintro ⟨z, hz, hz0⟩
      cases hz
      exact hneg hz0
    rw [if_neg hnot]
    exact .bind (.pure rfl) fun h' hh' => .pure (hh' ▸ hdone)

/-- **`ExtractMax` takes off a node of the heap**; once it is marked, the other nodes have the
values they had. -/
theorem Queued.extractMax (hq : Queued n h live val) (hne : live ≠ [])
    (hval : ∀ y ∈ live, 0 ≤ val y) :
    Returns h.extractMax fun r => r.1 ∈ live ∧
      Returns (r.2.mark r.1) (Queued n · (live.erase r.1) val) := by
  refine (hq.extractLoop hne hval).bind ?_
  rintro ⟨x, h₁⟩ ⟨b, key, hp, hk⟩
  refine (hk.holds.deleteElement (a := [])).bind ?_
  rintro h₂ ⟨hholds, hupdate⟩
  have hxlt : x < h₂.update.length := by
    rw [hupdate, hk.length]
    exact hk.holds.lt x (by simp)
  refine .pure ⟨hp.mem_iff.mp (by simp), ?_⟩
  have hmark : h₂.mark x = some { h₂ with update := h₂.update.set x none } := by
    rw [mark, wr_of_lt hxlt, Option.map_some]
  obtain ⟨hcells, hnd, hlt, hs, hkey, hheaded, htop⟩ := hholds
  refine .of_eq hmark ⟨b, key, perm_erase_of_perm (a := []) hp, ?_⟩
  exact hk.remove (a := []) ⟨hcells, hnd, hlt, hs, hkey, hheaded, htop⟩ (by rw [hupdate])

lemma Keeps.count (hk : Keeps n h l key val) (hx : x < n) (d : ℤ)
    (hu : h.update[x]? = some u) (hle : x ∈ l → ∀ z ∈ u, z + d ≤ 0) :
    Keeps n { h with update := h.update.set x (u.map (· + d)) } l key
      fun y => val y + if y = x then d else 0 := by
  have hxlt : x < h.update.length := hk.length.symm ▸ hx
  obtain ⟨hcells, hnd, hlt, hs, hkey, hheaded, htop⟩ := hk.holds
  refine ⟨⟨hcells, hnd, hlt, hs, hkey, hheaded, htop⟩, by simpa using hk.length, fun y hy => ?_,
    fun y hy hnot => ?_⟩
  · rw [getElem?_set_of_lt hxlt]
    obtain ⟨z, hz0, hz, hval⟩ := hk.counts y hy
    by_cases hyx : x = y
    · subst hyx
      rw [hu] at hz
      cases hz
      exact ⟨z + d, hle hy z rfl, by rw [if_pos rfl]; rfl, by rw [if_pos rfl]; omega⟩
    · exact ⟨z, hz0, by rw [if_neg hyx, hz], by rw [if_neg (Ne.symm hyx)]; omega⟩
  · rw [getElem?_set_of_lt hxlt]
    split
    · next hyx =>
      subst hyx
      have hnone := hk.marked x hy hnot
      rw [hu] at hnone
      cases hnone
      rfl
    · exact hk.marked y hy hnot

lemma Queued.decrementKey (hq : Queued n h live val) (hx : x < n) :
    Returns (h.decrementKey x) (Queued n · live fun y => val y + if y = x then -1 else 0) := by
  obtain ⟨l, key, hp, hk⟩ := hq
  refine (Returns.getElem? (hk.length.symm ▸ hx)).bind fun u hu => Returns.pure ?_
  refine ⟨l, key, hp, hk.count hx (-1) hu fun hmem z hz => ?_⟩
  obtain ⟨z', hz0, hz', -⟩ := hk.counts x hmem
  rw [hu] at hz'
  cases hz'
  cases hz
  omega

lemma Queued.raise (hq : Queued n h live val) (hx : x < n) :
    Returns (h.raise x) (Queued n · live fun y => val y + if y = x then 1 else 0) := by
  obtain ⟨l, key, hp, hk⟩ := hq
  refine (Returns.getElem? (hk.length.symm ▸ hx)).bind fun u hu => ?_
  split
  · next hzero =>
    -- only a node of the heap has the note `0`
    have hmem : x ∈ l := by
      by_contra hnot
      have := hk.marked x hx hnot
      rw [hu, hzero] at this
      cases this
    refine (hk.holds.incrementKey hmem).mono ?_
    rintro h' ⟨l', hp', hholds, hupdate⟩
    refine ⟨l', _, hp'.trans hp, hholds, by rw [hupdate, hk.length], fun y hy => ?_,
      fun y hy hnot => ?_⟩
    · obtain ⟨z, hz0, hz, hval⟩ := hk.counts y (hp'.mem_iff.mp hy)
      refine ⟨z, hz0, by rw [hupdate, hz], ?_⟩
      by_cases hyx : y = x
      · subst hyx
        rw [update_self]
        omega
      · rw [update_of_ne hyx]
        omega
    · rw [hupdate]
      exact hk.marked y hy fun hmem' => hnot (hp'.mem_iff.mpr hmem')
  · next hnz =>
    refine Returns.pure ⟨l, key, hp, hk.count hx 1 hu fun hmem z hz => ?_⟩
    obtain ⟨z', hz0, hz', -⟩ := hk.counts x hmem
    rw [hu] at hz'
    cases hz'
    cases hz
    have hne : z ≠ 0 := fun heq => hnz (by rw [heq])
    omega

lemma Queued.foldlM {step : UnitHeap → ℕ → Option UnitHeap} (c : ℤ)
    (hstep : ∀ {h val x}, Queued n h live val → x < n →
      Returns (step h x) (Queued n · live fun y => val y + if y = x then c else 0))
    (ws : List ℕ) (hws : ∀ w ∈ ws, w < n) (hq : Queued n h live val) :
    Returns (ws.foldlM step h) (Queued n · live fun y => val y + c * ws.count y) := by
  refine .foldlM (P := fun pre h => Queued n h live fun y => val y + c * pre.count y) ws ?_
    (by simpa using hq)
  rintro pre w post rfl h' hq'
  refine (hstep hq' (hws w (by simp))).mono fun h'' hq'' => ?_
  have hcount : (fun y => val y + c * ((pre ++ [w]).count y : ℕ))
      = fun y => val y + c * (pre.count y : ℕ) + if y = w then c else 0 := by
    funext y
    rw [count_append, count_singleton, Int.natCast_add, Int.mul_add, ← add_assoc]
    simp only [beq_iff_eq, eq_comm (a := w)]
    split <;> simp
  rw [hcount]
  exact hq''

end UnitHeap

end Rvanns.Faiss
