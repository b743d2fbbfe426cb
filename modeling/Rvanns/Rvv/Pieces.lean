import Rvanns.Rvv.Lanes

/-!
# Sums in several accumulators

A sum may be spread over several accumulators, each of which is handed some of the strips.
-/

namespace Rvanns.Rvv

open Cpp.Literals Function List

variable {ι K : Type*} [DecidableEq ι] [CommRing K]

def addPiece (t : ι → ℕ → K) (tail : ι → ℕ → Reg K) (vacc : ι → Reg K) (p : ι × Strip) :
    ι → Reg K :=
  update vacc p.1 (addStrip (t p.1) (tail p.1 p.2.offset) (vacc p.1) p.2)

def addPieces (t : ι → ℕ → K) (tail : ι → ℕ → Reg K) (ps : List (ι × Strip)) (vacc : ι → Reg K) :
    ι → Reg K :=
  ps.foldl (addPiece t tail) vacc

def Leftovers.tails {K : Type*} (G : Leftovers K) (j : Fin 4) : ℕ → Reg K := G.tail j

/-- Any tails can be left. -/
lemma exists_tails_eq (tail : Fin 4 → ℕ → Reg K) : ∃ G : Leftovers K, G.tails = tail := by
  refine ⟨⟨fun j => if h : j < 4 then tail ⟨j, h⟩ else 0, 0⟩, ?_⟩
  funext j
  exact dif_pos j.isLt

/-- The strips that go to accumulator `j`. -/
def stripsOf (j : ι) (ps : List (ι × Strip)) : List Strip := (ps.filter (·.1 = j)).map Prod.snd

/-- The sum of the elements of a strip. -/
def stripSum (t : ℕ → K) (s : Strip) : K := ∑ k ∈ Finset.range s.len, t (s.offset + k)

lemma stripSum_add (t : ℕ → K) (o a b : ℕ) :
    stripSum t ⟨o, a + b⟩ = stripSum t ⟨o, a⟩ + stripSum t ⟨o + a, b⟩ := by
  simp only [stripSum, Finset.sum_range_add, add_assoc]

lemma sum_map_flatMap {β γ : Type*} (f : β → List γ) (h : γ → K) (l : List β) :
    ((l.flatMap f).map h).sum = (l.map fun b => ((f b).map h).sum).sum := by
  induction l with
  | nil => rfl
  | cons b l ih => simp [ih]

lemma mem_stripsOf {ps : List (ι × Strip)} : s ∈ stripsOf j ps ↔ (j, s) ∈ ps := by
  simp [stripsOf]

lemma stripsOf_flatMap {α : Type*} (l : List α) (f : α → List (ι × Strip)) :
    stripsOf j (l.flatMap f) = l.flatMap fun a => stripsOf j (f a) := by
  rw [stripsOf, filter_flatMap, map_flatMap]
  rfl

section

variable (t : ι → ℕ → K)

include t

lemma addPieces_append (tail : ι → ℕ → Reg K) (ps ps' : List (ι × Strip)) (vacc : ι → Reg K) :
    addPieces t tail (ps ++ ps') vacc = addPieces t tail ps' (addPieces t tail ps vacc) :=
  foldl_append

lemma foldl_addPieces {β : Type*} (tail : ι → ℕ → Reg K)
    (f : β → List (ι × Strip)) (l : List β) (vacc : ι → Reg K) :
    l.foldl (fun vacc b => addPieces t tail (f b) vacc) vacc
      = addPieces t tail (l.flatMap f) vacc := by
  induction l generalizing vacc with
  | nil => rfl
  | cons b l ih => rw [foldl_cons, ih, flatMap_cons, addPieces_append]

/-- The accumulators do not disturb each other. -/
lemma addPieces_apply (tail : ι → ℕ → Reg K) (ps : List (ι × Strip)) (vacc : ι → Reg K) (j : ι) :
    addPieces t tail ps vacc j = accumulate (t j) (tail j) (stripsOf j ps) (vacc j) := by
  induction ps generalizing vacc with
  | nil => rfl
  | cons p ps ih =>
    show addPieces t tail ps (addPiece t tail vacc p) j = _
    rw [ih, addPiece]
    by_cases hp : p.1 = j
    · subst hp
      simp [stripsOf, accumulate]
    · simp [stripsOf, hp, update_of_ne (.symm hp)]

/-- The pieces of all accumulators together. -/
lemma sum_stripsOf [Fintype ι] (ps : List (ι × Strip)) :
    ∑ j, ((stripsOf j ps).map (stripSum (t j))).sum
      = (ps.map fun p => stripSum (t p.1) p.2).sum := by
  induction ps with
  | nil => simp [stripsOf]
  | cons p ps ih =>
    have hcons : ∀ j, ((stripsOf j (p :: ps)).map (stripSum (t j))).sum
        = (if p.1 = j then stripSum (t j) p.2 else 0)
          + ((stripsOf j ps).map (stripSum (t j))).sum := by
      intro j
      by_cases hp : p.1 = j <;> simp [stripsOf, hp]
    simp only [hcons, Finset.sum_add_distrib, ih, map_cons, sum_cons]
    congr 1
    rw [Finset.sum_ite_eq, if_pos (Finset.mem_univ _)]

end

section Exact

variable {t : ι → ℕ → K} {ps : List (ι × Strip)} {r : ℕ}

lemma laneSum_addPieces (hfull : ∀ p ∈ ps, p.2.len = r) (tail : ι → ℕ → Reg K) (j : ι) :
    laneSum r (addPieces t tail ps (fun _ => splat 0) j)
      = ((stripsOf j ps).map (stripSum (t j))).sum := by
  rw [addPieces_apply, laneSum_accumulate fun s hs => hfull _ (mem_stripsOf.mp hs),
    laneSum_splat_zero, zero_add]
  rfl

variable [Nontrivial K] (hle : ∀ p ∈ ps, p.2.len ≤ r)

include hle in
/-- **One sum in several accumulators.** -/
lemma forall_sum_laneSum_addPieces_iff [Fintype ι] :
    (∀ tail, ∑ j, laneSum r (addPieces t tail ps (fun _ => splat 0) j)
        = (ps.map fun p => stripSum (t p.1) p.2).sum) ↔ ∀ p ∈ ps, p.2.len = r := by
  constructor
  · intro h p hp
    by_contra hlen
    have hshort : p.2.len < r := by have := hle p hp; omega
    -- all other accumulators find zeros, so that only this one can make up the sum
    obtain ⟨tail, htail⟩ := exists_tail_ne (t := t p.1) (mem_stripsOf.mpr hp) hshort (splat 0)
      ((ps.map fun p => stripSum (t p.1) p.2).sum
        - ∑ j ∈ Finset.univ.erase p.1, laneSum r (addPieces t 0 ps (fun _ => splat 0) j))
    apply htail
    have hsum := h (update 0 p.1 tail)
    have hother : ∀ j ∈ Finset.univ.erase p.1,
        laneSum r (addPieces t (update 0 p.1 tail) ps (fun _ => splat 0) j)
          = laneSum r (addPieces t 0 ps (fun _ => splat 0) j) := by
      intro j hj
      rw [addPieces_apply, addPieces_apply, update_of_ne (Finset.ne_of_mem_erase hj)]
    rw [← Finset.add_sum_erase _ _ (Finset.mem_univ p.1), Finset.sum_congr rfl hother,
      addPieces_apply, update_self] at hsum
    exact eq_sub_of_add_eq hsum
  · intro hfull tail
    rw [← sum_stripsOf]
    exact Finset.sum_congr rfl fun j _ => laneSum_addPieces hfull tail j

include hle in
/-- **A sum in each accumulator.** -/
lemma forall_laneSum_addPieces_iff :
    (∀ tail j, laneSum r (addPieces t tail ps (fun _ => splat 0) j)
        = ((stripsOf j ps).map (stripSum (t j))).sum) ↔ ∀ p ∈ ps, p.2.len = r := by
  constructor
  · intro h p hp
    by_contra hlen
    have hshort : p.2.len < r := by have := hle p hp; omega
    obtain ⟨tail, htail⟩ := exists_tail_ne (t := t p.1) (mem_stripsOf.mpr hp) hshort (splat 0)
      ((stripsOf p.1 ps).map (stripSum (t p.1))).sum
    apply htail
    rw [← h (fun _ => tail) p.1, addPieces_apply]
  · exact fun hfull tail j => laneSum_addPieces hfull tail j

end Exact

end Rvanns.Rvv
