import Rvanns.Cpp.UnionFind
import Rvanns.Faiss.Equiv.Layout.Rcm
import Rvanns.Faiss.Layout.RabbitOrder

/-!
# The Rabbit layout

Throughout the merging loop the parent links form a forest, and the members of a community are the
nodes in the tree below its root (`generateRabbitOrderPermutation_sound`).
-/

namespace Rvanns.Faiss

open Cpp List Function

section Forest

variable {F : Type} {n : ℕ} {root rank : ℕ → ℕ} {comms : List (RabbitCommunity F)}

def parentOf (comms : List (RabbitCommunity F)) (v : ℕ) : ℕ :=
  (comms[v]?.map RabbitCommunity.parent).getD v

lemma parentOf_eq (hc : comms[v]? = some c) : parentOf comms v = c.parent := by
  simp [parentOf, hc]

lemma parentOf_set (hv : v < comms.length) (c : RabbitCommunity F) :
    parentOf (comms.set v c) = update (parentOf comms) v c.parent := by
  funext w
  rw [update_apply]
  split
  · next heq =>
    subst heq
    simp [parentOf, hv]
  · next hne => rw [parentOf, parentOf, getElem?_set_ne (.symm hne)]

structure IsPartition (n : ℕ) (root rank : ℕ → ℕ) (comms : List (RabbitCommunity F)) :
    Prop where
  length : comms.length = n
  forest : Forest n (parentOf comms) root rank
  nodup : ∀ (v : ℕ) c, comms[v]? = some c → c.members.Nodup
  mem_iff : ∀ (v : ℕ) c, comms[v]? = some c → ∀ u, u ∈ c.members ↔ u < n ∧ root u = v
  active_iff : ∀ (v : ℕ) c, comms[v]? = some c → (c.active = true ↔ root v = v)

namespace IsPartition

variable (h : IsPartition n root rank comms)

include h

lemma returns_getElem? {v : ℕ} (hv : v < n) : Returns comms[v]? (comms[v]? = some ·) :=
  .getElem? (h.length.symm ▸ hv)

/-! ### Finding roots -/

lemma climb (hnode : node < n) :
    Returns (whileLoop (climbTurn comms) (comms.length + 1) node) (· = root node) := by
  refine .whileLoop (P := fun v => v < n ∧ root v = root node) (higher n rank) ?_
    ⟨hnode, rfl⟩ (by rw [h.length]; exact Nat.lt_succ_of_le (higher_le n rank node))
  rintro v ⟨hv, hroot⟩
  refine (h.returns_getElem? hv).map fun c hc => ?_
  have hparent := parentOf_eq hc
  split
  · next hne =>
    rw [← hparent] at hne ⊢
    have hlt := h.forest.parent_lt v hv
    exact ⟨⟨hlt, (h.forest.root_parent v hv).trans hroot⟩,
      higher_lt hlt (h.forest.rank_lt_parent v hv hne)⟩
  · next heq =>
    rw [not_not, ← hparent] at heq
    exact (h.forest.root_of_parent_eq v hv heq).symm.trans hroot

lemma setParent (hc : comms[v]? = some c) (hne : c.parent ≠ v) :
    IsPartition n root rank (comms.set v { c with parent := root v }) := by
  have hv := lt_length hc
  -- the other fields of an entry are those of the entry before
  have hold : ∀ (w : ℕ) (c' : RabbitCommunity F),
      (comms.set v { c with parent := root v })[w]? = some c' →
      ∃ c₀ : RabbitCommunity F, comms[w]? = some c₀ ∧ c'.members = c₀.members ∧ c'.active
        = c₀.active := by
    intro w c' hc'
    rw [getElem?_set] at hc'
    split at hc'
    · next heq =>
      subst heq
      cases hc'
      exact ⟨c, hc, rfl, rfl⟩
    · exact ⟨c', hc', rfl, rfl⟩
  refine ⟨by simpa using h.length, ?_, ?_, ?_, ?_⟩
  · rw [parentOf_set hv]
    exact h.forest.shorten (h.length ▸ hv) (parentOf_eq hc ▸ hne)
  · intro w c' hc'
    obtain ⟨c₀, hc₀, hm, -⟩ := hold w c' hc'
    exact hm ▸ h.nodup w c₀ hc₀
  · intro w c' hc'
    obtain ⟨c₀, hc₀, hm, -⟩ := hold w c' hc'
    exact hm ▸ h.mem_iff w c₀ hc₀
  · intro w c' hc'
    obtain ⟨c₀, hc₀, -, ha⟩ := hold w c' hc'
    exact ha ▸ h.active_iff w c₀ hc₀

lemma shorten (hnode : node < n) :
    Returns (whileLoop (shortenTurn (root node)) (comms.length + 1) (comms, node))
      (IsPartition n root rank) := by
  refine .whileLoop (P := fun s : List (RabbitCommunity F) × ℕ =>
      IsPartition n root rank s.1 ∧ s.2 < n ∧ root s.2 = root node)
    (fun s => higher n rank s.2) ?_ ⟨h, hnode, rfl⟩
    (by rw [h.length]; exact Nat.lt_succ_of_le (higher_le n rank node))
  rintro ⟨cs, v⟩ ⟨hcs, hv, hroot⟩
  refine (hcs.returns_getElem? hv).map fun c hc => ?_
  have hparent := parentOf_eq hc
  split
  · next hne =>
    have hset := hcs.setParent hc hne
    rw [hroot] at hset
    rw [← hparent] at hne ⊢
    have hlt := hcs.forest.parent_lt v hv
    exact ⟨⟨hset, hlt, (hcs.forest.root_parent v hv).trans hroot⟩,
      higher_lt hlt (hcs.forest.rank_lt_parent v hv hne)⟩
  · exact hcs

lemma findRoot {node : ℕ} (hnode : node < n) : Returns (rabbitFindRoot comms node) fun r =>
      r.1 = root node ∧ IsPartition n root rank r.2 := by
  refine (h.climb hnode).bind ?_
  rintro _ rfl
  exact (h.shorten hnode).bind fun cs hcs => .pure ⟨rfl, hcs⟩

end IsPartition

end Forest

section Merge

/-! ### Merging -/

variable {F : Type} [Zero F] [Add F] {n : ℕ} {root rank : ℕ → ℕ}
  {comms : List (RabbitCommunity F)}

lemma mergeInto_getElem? (hs : comms[s]? = some cs) (ht : comms[t]? = some ct) (hne : s ≠ t) :
    Returns (mergeInto comms s t) fun merged =>
      merged.length = comms.length ∧ ∀ v : ℕ, merged[v]? =
        if v = s then some ⟨t, [], 0, false⟩
        else if v = t then
          some ⟨ct.parent, ct.members ++ cs.members, ct.strength + cs.strength, ct.active⟩
        else comms[v]? := by
  have hslt := lt_length hs
  have htlt := lt_length ht
  refine .bind_eq hs ?_
  refine .bind_eq ((getElem?_set_ne hne).trans ht) ?_
  refine .bind (.of_eq ((getElem?_set_ne (.symm hne)).trans
    (getElem?_set_self hslt)) rfl) ?_
  rintro _ rfl
  refine .pure ⟨by simp, fun v => ?_⟩
  by_cases hvs : v = s
  · subst hvs
    simp [hslt]
  · rw [getElem?_set_ne (.symm hvs), if_neg hvs]
    by_cases hvt : v = t
    · subst hvt
      simp [htlt]
    · rw [getElem?_set_ne (.symm hvt), getElem?_set_ne (.symm hvs), if_neg hvt]

lemma IsPartition.merge (h : IsPartition n root rank comms) {s t : ℕ} (hs : s < n)
    (ht : t < n) (hroots : root s = s) (hroott : root t = t) (hne : s ≠ t) :
    Returns (mergeInto comms s t) (IsPartition n (Forest.joined root s t)
        (update rank t (max (rank t) (rank s + 1)))) := by
  obtain ⟨cs, -, hcs⟩ := h.returns_getElem? hs
  obtain ⟨ct, -, hct⟩ := h.returns_getElem? ht
  refine (mergeInto_getElem? hcs hct hne).mono fun merged hmerged => ?_
  obtain ⟨hlen, hget⟩ := hmerged
  have hpt : ct.parent = t := by
    rw [← parentOf_eq hct]
    exact hroott ▸ h.forest.parent_root t ht
  have hparent : ∀ v < n, parentOf merged v = update (parentOf comms) s t v := by
    intro v hv
    rw [update_apply, parentOf, hget]
    by_cases hvs : v = s
    · simp [hvs]
    · rw [if_neg hvs, if_neg hvs]
      by_cases hvt : v = t
      · subst hvt
        simp [hpt, parentOf_eq hct]
      · rw [if_neg hvt, parentOf]
  -- the three kinds of entries
  have hcases : ∀ (v : ℕ) (c : RabbitCommunity F), merged[v]? = some c →
      (v = s ∧ c.members = [] ∧ c.active = false) ∨
      (v = t ∧ c.members = ct.members ++ cs.members ∧ c.active = ct.active) ∨
      (v ≠ s ∧ v ≠ t ∧ comms[v]? = some c) := by
    intro v c hc
    rw [hget] at hc
    split at hc
    · next hvs =>
      cases hc
      exact .inl ⟨hvs, rfl, rfl⟩
    · next hvs =>
      split at hc
      · next hvt =>
        cases hc
        exact .inr (.inl ⟨hvt, rfl, rfl⟩)
      · next hvt => exact .inr (.inr ⟨hvs, hvt, hc⟩)
  refine ⟨hlen.trans h.length, (h.forest.link hs ht hroots hroott hne).congr hparent, ?_, ?_, ?_⟩
  · intro v c hc
    rcases hcases v c hc with ⟨-, hm, -⟩ | ⟨-, hm, -⟩ | ⟨-, -, hold⟩
    · simp [hm]
    · -- a node is in one community only
      rw [hm]
      refine nodup_append.mpr ⟨h.nodup t ct hct, h.nodup s cs hcs, ?_⟩
      rintro u hu w hw rfl
      have hut := ((h.mem_iff t ct hct u).mp hu).2
      have hus := ((h.mem_iff s cs hcs u).mp hw).2
      exact hne (hus.symm.trans hut)
    · exact h.nodup v c hold
  · intro v c hc u
    unfold Forest.joined
    rcases hcases v c hc with ⟨rfl, hm, -⟩ | ⟨rfl, hm, -⟩ | ⟨hvs, hvt, hold⟩
    · rw [hm]
      simp only [not_mem_nil, false_iff, not_and]
      intro _
      split
      · exact Ne.symm hne
      · assumption
    · rw [hm, mem_append, h.mem_iff v ct hct, h.mem_iff s cs hcs]
      split
      · next hu => simp [hu, hne]
      · next hu => simp [hu]
    · rw [h.mem_iff v c hold]
      split
      · next hu =>
        rw [hu]
        exact ⟨fun hv => absurd hv.2.symm hvs, fun hv => absurd hv.2.symm hvt⟩
      · rfl
  · intro v c hc
    unfold Forest.joined
    rcases hcases v c hc with ⟨rfl, -, ha⟩ | ⟨rfl, -, ha⟩ | ⟨hvs, hvt, hold⟩
    · rw [ha, if_pos hroots]
      simpa using Ne.symm hne
    · rw [ha, h.active_iff v ct hct, hroott, if_neg (Ne.symm hne)]
    · rw [h.active_iff v c hold]
      split
      · next hv => rw [hv]; exact ⟨fun h' => absurd h'.symm hvs, fun h' => absurd h'.symm hvt⟩
      · rfl

end Merge

section MergingLoop

/-! ### The merging loop -/

variable {F : Type} [LinearOrder F] [Zero F] [One F] [Add F] [Sub F] [Mul F] [Div F]
  {n : ℕ} {root rank : ℕ → ℕ} {g : List (List ℕ)} {sourceRoot : ℕ}

structure EdgeCount.Inv (n : ℕ) (root rank : ℕ → ℕ) (sourceRoot : ℕ) (s : EdgeCount F) : Prop where
  partition : IsPartition n root rank s.communities
  weights : s.edgeWeights.length = n
  touched : ∀ r ∈ s.touchedRoots, r < n ∧ root r = r ∧ sourceRoot ≠ r

omit [Sub F] [Mul F] [Div F] in
lemma EdgeCount.Inv.countEdge {s : EdgeCount F} (hs : s.Inv n root rank sourceRoot)
    (hu : u < n) : Returns (countEdge sourceRoot s u) (EdgeCount.Inv n root rank sourceRoot) := by
  refine (hs.partition.findRoot hu).bind ?_
  rintro ⟨_, cs⟩ ⟨rfl, hcs⟩
  have hroot := hs.partition.forest.root_lt u hu
  refine (hcs.returns_getElem? hroot).bind fun c _ => ?_
  split
  · exact Returns.pure ⟨hcs, hs.weights, hs.touched⟩
  · next hother =>
    refine (Returns.getElem? (hs.weights.symm ▸ hroot)).bind fun weight _ => Returns.pure ?_
    refine ⟨hcs, by simpa using hs.weights, fun r hr => ?_⟩
    have hnew : root u < n ∧ root (root u) = root u ∧ sourceRoot ≠ root u :=
      ⟨hroot, hs.partition.forest.root_root hu, fun heq => hother (Or.inl heq.symm)⟩
    split at hr
    · exact forall_mem_concat.mpr ⟨hs.touched, hnew⟩ r hr
    · exact hs.touched r hr

omit [Sub F] [Mul F] [Div F] in
lemma EdgeCount.Inv.countEdges (hg : IsGraph n g)
    (hmembers : ∀ v ∈ members, v < n) {s : EdgeCount F} (hs : s.Inv n root rank sourceRoot) :
    Returns (countEdges g sourceRoot members s) (EdgeCount.Inv n root rank sourceRoot) := by
  refine .foldlM_inv members (fun v hv t ht => ?_) hs
  refine (hg.returns_getElem? (hmembers v hv)).bind fun neighbors hlt => ?_
  exact .foldlM_inv neighbors (fun u hu t' ht' => ht'.countEdge (hlt u hu)) ht

omit [One F] [Add F] in
lemma EdgeCount.Inv.betterTarget {s : EdgeCount F} (hs : s.Inv n root rank sourceRoot)
    (strength total : F) :
    Returns (s.touchedRoots.foldlM (betterTarget s strength total) (none, 0))
      fun best => ∀ b ∈ best.1, b ∈ s.touchedRoots := by
  refine .foldlM_inv s.touchedRoots (fun r hr best hbest => ?_) (by simp)
  obtain ⟨hlt, -, -⟩ := hs.touched r hr
  refine (Returns.getElem? (hs.weights.symm ▸ hlt)).bind fun weight _ => ?_
  refine (hs.partition.returns_getElem? hlt).bind fun c _ => Returns.pure ?_
  intro b hb
  split at hb
  · cases hb
    exact hr
  · exact hbest b hb

omit [One F] [Sub F] [Mul F] [Div F] in
lemma EdgeCount.Inv.mergeBest {s : EdgeCount F} (hs : s.Inv n root rank sourceRoot)
    (hsource : sourceRoot < n) (hroot : root sourceRoot = sourceRoot)
    (hbest : ∀ b ∈ best.1, b ∈ s.touchedRoots) :
    Returns (mergeBest s.communities sourceRoot best)
      fun merged => ∃ root rank, IsPartition n root rank merged := by
  have hsame : Returns (some s.communities)
      fun merged : List (RabbitCommunity F) => ∃ root rank, IsPartition n root rank merged :=
    .pure ⟨root, rank, hs.partition⟩
  unfold Faiss.mergeBest
  split
  · next bestRoot hsome =>
    split
    · obtain ⟨hlt, hfix, hne⟩ := hs.touched bestRoot (hbest bestRoot hsome)
      exact (hs.partition.merge hsource hlt hroot hfix hne).mono
        fun merged hmerged => ⟨_, _, hmerged⟩
    · exact hsame
  · exact hsame

structure MergeState.Inv (n : ℕ) (s : MergeState F) : Prop where
  partition : ∃ root rank, IsPartition n root rank s.communities
  weights : s.edgeWeights.length = n
  processed : s.rootProcessed.length = n

lemma returns_clear {F : Type} [Zero F] {roots : List ℕ} (hr : ∀ r ∈ roots, r < n)
    {weights : List F} (hw : weights.length = n) :
    Returns (roots.foldlM (fun w r => wr w r 0) weights) (List.length · = n) := by
  refine .foldlM_inv roots (fun r hr' w hw' => ?_) hw
  exact .of_eq (wr_of_lt (hw'.symm ▸ hr r hr') 0) (by simpa using hw')

lemma MergeState.Inv.mergeTurn (hg : IsGraph n g) (total : F) {s : MergeState F}
    (hs : s.Inv n) {node : ℕ} (hnode : node < n) :
    Returns (mergeTurn g total s node) (MergeState.Inv n) := by
  obtain ⟨⟨root, rank, hpart⟩, hweights, hprocessed⟩ := hs
  refine (hpart.findRoot hnode).bind ?_
  rintro ⟨_, cs⟩ ⟨rfl, hcs⟩
  have hroot := hpart.forest.root_lt node hnode
  refine (hcs.returns_getElem? hroot).bind fun c hc => ?_
  refine (Returns.getElem? (hprocessed.symm ▸ hroot)).bind fun processed _ => ?_
  split
  · exact Returns.pure ⟨⟨root, rank, hcs⟩, hweights, hprocessed⟩
  · have hmembers : ∀ v ∈ c.members, v < n := fun v hv => ((hcs.mem_iff _ c hc v).mp hv).1
    have hstart : EdgeCount.Inv n root rank (root node) ⟨cs, s.edgeWeights, []⟩ :=
      ⟨hcs, hweights, by simp⟩
    refine (hstart.countEdges hg hmembers).bind fun counted hcounted => ?_
    refine (hcounted.betterTarget c.strength total).bind fun best hbest => ?_
    refine (hcounted.mergeBest hroot (hpart.forest.root_root hnode) hbest).bind ?_
    intro merged hmerged
    refine (returns_clear (fun r hr => (hcounted.touched r hr).1) hcounted.weights).bind
      fun cleared hcleared => Returns.pure ?_
    exact ⟨hmerged, hcleared, by simpa using hprocessed⟩

end MergingLoop

/-! ### Writing the communities -/

structure IsEmitted (n : ℕ) (s : List Bool × List ℕ) : Prop where
  length : s.1.length = n
  nodup : s.2.Nodup
  emitted_iff : ∀ i : ℕ, s.1[i]? = some true ↔ i ∈ s.2

variable {n : ℕ} {s : List Bool × List ℕ}

lemma IsEmitted.emit (hs : IsEmitted n s) (hv : v < n) :
    Returns (rabbitEmit s v) (IsEmitted n) := by
  have hv' : v < s.1.length := hs.length.symm ▸ hv
  refine (Returns.getElem? hv').bind fun seen hseen => Returns.pure ?_
  cases seen with
  | true => exact hs
  | false =>
    have hnew : v ∉ s.2 := by
      rw [← hs.emitted_iff, hseen]
      simp
    refine ⟨by simpa using hs.length, ?_, fun i => ?_⟩
    · exact nodup_append.mpr ⟨hs.nodup, by simp, by rintro a ha b hb rfl; simp_all⟩
    · show (s.1.set v true)[i]? = some true ↔ i ∈ s.2 ++ [v]
      rw [mem_append, ← hs.emitted_iff]
      by_cases hiv : v = i
      · subst hiv
        simp [hv']
      · rw [getElem?_set_ne hiv]
        simp [Ne.symm hiv]

lemma IsEmitted.addRest (hs : IsEmitted n s) : Returns ((range n).foldlM (fun perm i => do
        let seen ← s.1[i]?
        return if seen then perm else perm ++ [i]) s.2) (IsNumbering · n) := by
  -- after `k` turns: what was there before and the nodes below `k` that were missing
  refine Returns.mono (P := fun perm => perm = s.2 ++
      (range n).filter fun i => decide (s.1[i]? = some false)) ?_ ?_
  · refine .foldlM_range (P := fun k perm => perm = s.2 ++
      (range k).filter fun i => decide (s.1[i]? = some false)) n ?_ (by simp)
    rintro k hk perm rfl
    refine (Returns.getElem? (hs.length.symm ▸ hk)).bind fun seen hseen => Returns.pure ?_
    rw [range_succ, filter_append, filter_singleton, hseen]
    cases seen <;> simp
  · rintro perm rfl
    have hmem : ∀ i, i ∈ (range n).filter (fun i => decide (s.1[i]? = some false)) ↔
        i < n ∧ i ∉ s.2 := by
      intro i
      rw [mem_filter, mem_range, ← hs.emitted_iff]
      refine and_congr_right fun hi => ?_
      rw [getElem?_eq_getElem (hs.length.symm ▸ hi)]
      simp
    refine IsNumbering.of_nodup ?_ fun i => ?_
    · refine nodup_append.mpr ⟨hs.nodup, nodup_range.filter _, ?_⟩
      rintro a ha b hb rfl
      exact ((hmem a).mp hb).2 ha
    · rw [mem_append, hmem]
      constructor
      · rintro (hi | hi)
        · have hlt := lt_length ((hs.emitted_iff i).mpr hi)
          exact hs.length ▸ hlt
        · exact hi.1
      · intro hi
        by_cases his : i ∈ s.2
        · exact Or.inl his
        · exact Or.inr ⟨hi, his⟩

section Permutation

variable {F : Type} [LinearOrder F] [Zero F]

lemma strictWeak_strongerRoot (comms : List (RabbitCommunity F)) :
    StrictWeak (strongerRoot comms) := by
  refine StrictWeak.of_key (fun r =>
    toLex (OrderDual.toDual (strengthOf comms r), smallestMember comms r)) fun a b => ?_
  rw [Prod.Lex.toLex_lt_toLex]
  unfold strongerRoot
  split
  · next hne => simp [hne]
  · next heq =>
    rw [not_not] at heq
    simp [heq]

omit [LinearOrder F] [Zero F] in
lemma IsPartition.activeRoots (h : IsPartition n root rank comms) :
    Returns (activeRoots n comms) fun r =>
      IsPartition n root rank r.1 ∧ ∀ i ∈ r.2, i < n := by
  refine .foldlM_inv (range n) ?_ ⟨h, by simp⟩
  rintro i hi ⟨cs, roots⟩ ⟨hcs, hroots⟩
  have hi' := mem_range.mp hi
  refine (hcs.findRoot hi').bind ?_
  rintro ⟨r, cs'⟩ ⟨-, hcs'⟩
  refine (hcs'.returns_getElem? hi').bind fun c _ => .pure ⟨hcs', fun j hj => ?_⟩
  split at hj
  · exact forall_mem_concat.mpr ⟨hroots, hi'⟩ j hj
  · exact hroots j hj

end Permutation

def mergeStart (F : Type) [Zero F] [NatCast F] (n : ℕ) (g : List (List ℕ)) : MergeState F where
  communities := (range n).map fun i => ⟨i, [i], (degree g i : F), true⟩
  edgeWeights := replicate n 0
  rootProcessed := replicate n false

lemma inv_mergeStart (F : Type) [Zero F] [NatCast F] (n : ℕ) (g : List (List ℕ)) :
    (mergeStart F n g).Inv n := by
  have hget : ∀ (v : ℕ) (c : RabbitCommunity F), (mergeStart F n g).communities[v]? = some c →
        v < n ∧ c = ⟨v, [v], (degree g v : F), true⟩ := by
    intro v c hc
    unfold mergeStart at hc
    rw [getElem?_map, Option.map_eq_some_iff] at hc
    obtain ⟨w, hw', rfl⟩ := hc
    obtain ⟨hlt, hw''⟩ := List.getElem?_eq_some_iff.mp hw'
    rw [getElem_range] at hw''
    exact ⟨by simpa using hlt, by rw [hw'']⟩
  refine ⟨⟨id, fun _ => 0, by simp [mergeStart], ?_, ?_, ?_, ?_⟩, by simp [mergeStart],
    by simp [mergeStart]⟩
  · refine (Forest.singletons n).congr fun v hv => ?_
    simp [parentOf, mergeStart, hv]
  · intro v c hc
    simp [(hget v c hc).2]
  · intro v c hc u
    obtain ⟨hv, rfl⟩ := hget v c hc
    simp only [mem_singleton, id_eq]
    exact ⟨fun hu => ⟨hu ▸ hv, hu⟩, And.right⟩
  · intro v c hc
    simp [(hget v c hc).2]

lemma lt_of_mem_order (S : StdSort ℕ) (g : List (List ℕ)) {v : ℕ}
    (hv : v ∈ S.run (degreeThenId g) (range n)) : v < n :=
  mem_range.mp ((S.perm (strictWeak_degreeThenId g) _).mem_iff.mp hv)

lemma generateRabbitOrderPermutation_isNumbering (S : StdSort ℕ) (hw : h.WellFormed)
    (F : Type) [LinearOrder F] [Zero F] [One F] [Add F] [Sub F] [Mul F] [Div F] [NatCast F] :
    Returns (generateRabbitOrderPermutation S h h.levels.length F)
      (IsNumbering · h.levels.length) := by
  set n := h.levels.length with hn
  unfold generateRabbitOrderPermutation
  split
  · next hzero =>
    rw [hzero]
    exact .pure (.refl _)
  · refine (buildUndirectedLevel0Graph_isGraph S hw).bind fun g hg => ?_
    refine .bind (.foldlM_inv _ (fun v hv s hs =>
      MergeState.Inv.mergeTurn hg _ hs (lt_of_mem_order S g hv)) (inv_mergeStart F n g))
      fun s hs => ?_
    obtain ⟨root, rank, hpart⟩ := hs.partition
    refine hpart.activeRoots.bind ?_
    rintro ⟨cs, roots⟩ ⟨hcs, hroots⟩
    refine .bind (P := IsEmitted n) ?_ fun s' hs' => hs'.addRest
    refine .foldlM_inv _ (fun r hr s' hs' => ?_) ⟨by simp, by simp, ?_⟩
    · have hr' := hroots r ((S.perm (strictWeak_strongerRoot cs) roots).mem_iff.mp hr)
      refine (hcs.returns_getElem? hr').bind fun c hc => ?_
      exact .foldlM_inv c.members
        (fun v hv s'' hs'' => hs''.emit ((hcs.mem_iff r c hc v).mp hv).1) hs'
    · intro i
      simp [getElem?_replicate]

/-! ### The communities while they are merged -/

structure SoundCommunities {F : Type} (n : ℕ) (comms : List (RabbitCommunity F)) : Prop where
  acyclic : ∀ v < n, ∀ k, (parentOf comms)^[k + 1] v = v → parentOf comms v = v
  partition : ((comms.filter RabbitCommunity.active).flatMap RabbitCommunity.members).Perm
    (range n)

lemma IsPartition.sound {F : Type} {root rank : ℕ → ℕ} {comms : List (RabbitCommunity F)}
    (h : IsPartition n root rank comms) : SoundCommunities n comms := by
  refine ⟨fun v hv k hcycle => h.forest.parent_eq_of_iterate_eq hv hcycle, ?_⟩
  have hnd : ((comms.filter RabbitCommunity.active).flatMap
    RabbitCommunity.members).Nodup := by
    refine nodup_flatMap.mpr ⟨fun c hc => ?_, List.Pairwise.filter _ ?_⟩
    · obtain ⟨i, hi⟩ := mem_iff_getElem?.mp (mem_of_mem_filter hc)
      exact h.nodup i c hi
    · refine pairwise_iff_getElem.mpr fun i j hi hj hij u hu hu' => ?_
      have hroot := ((h.mem_iff i _ (getElem?_eq_getElem hi) u).mp hu).2
      have hroot' := ((h.mem_iff j _ (getElem?_eq_getElem hj) u).mp hu').2
      omega
  refine (perm_ext_iff_of_nodup hnd nodup_range).mpr fun u => ?_
  rw [mem_flatMap, mem_range]
  constructor
  · rintro ⟨c, hc, hu⟩
    obtain ⟨i, hi⟩ := mem_iff_getElem?.mp (mem_of_mem_filter hc)
    exact ((h.mem_iff i c hi u).mp hu).1
  · intro hu
    -- the community of the root of `u`
    obtain ⟨c, -, hc⟩ := h.returns_getElem? (h.forest.root_lt u hu)
    have hactive := (h.active_iff _ c hc).mpr (h.forest.root_root hu)
    exact ⟨c, mem_filter.mpr ⟨mem_of_getElem? hc, hactive⟩, (h.mem_iff _ c hc u).mpr ⟨hu, rfl⟩⟩

section Phases

variable {F : Type} [LinearOrder F] [Zero F] [One F] [Add F] [Sub F] [Mul F] [Div F] [NatCast F]

omit [Sub F] [Mul F] [Div F] [NatCast F] in
lemma returns_countEdge_prefix {root rank : ℕ → ℕ} {g : List (List ℕ)} (hg : IsGraph n g)
    {members edges : List ℕ}
    (hedges : edges <+: members.flatMap fun v => g.getD v []) {s : EdgeCount F}
    (hs : s.Inv n root rank sourceRoot) :
    Returns (edges.foldlM (countEdge sourceRoot) s) (EdgeCount.Inv n root rank sourceRoot) := by
  refine .foldlM_inv edges (fun u hu t ht => ht.countEdge ?_) hs
  obtain ⟨v, -, hv⟩ := mem_flatMap.mp (hedges.subset hu)
  rw [getD_eq_getElem?_getD] at hv
  cases hrow : g[v]? with
  | none => simp [hrow] at hv
  | some row =>
    rw [hrow] at hv
    exact hg.lt row (mem_of_getElem? hrow) u hv

def MergesSoundly (S : StdSort ℕ) (F : Type) [LinearOrder F] [Zero F] [One F] [Add F] [Sub F]
    [Mul F] [Div F] [NatCast F] (n : ℕ) (g : List (List ℕ)) (total : F) : Prop :=
  ∀ done, done <+: S.run (degreeThenId g) (range n) →
    ∃ s, done.foldlM (mergeTurn g total) (mergeStart F n g) = some s
      ∧ SoundCommunities n s.communities
      ∧ ∀ node < n, ∃ root comms c,
        rabbitFindRoot s.communities node = some (root, comms)
        ∧ SoundCommunities n comms ∧ comms[root]? = some c
        ∧ ∀ edges, edges <+: (c.members.flatMap fun v => g.getD v []) →
          ∃ t, edges.foldlM (countEdge root) ⟨comms, s.edgeWeights, []⟩ = some t
            ∧ SoundCommunities n t.communities

lemma mergesSoundly (S : StdSort ℕ) {g : List (List ℕ)} (hg : IsGraph n g)
    (total : F) : MergesSoundly S F n g total := by
  intro done hdone
  obtain ⟨s, hs, hinv⟩ : Returns (done.foldlM (mergeTurn g total) (mergeStart F n g))
      (MergeState.Inv n) :=
    .foldlM_inv done (fun v hv s hs => MergeState.Inv.mergeTurn hg total hs
      (lt_of_mem_order S g (hdone.subset hv))) (inv_mergeStart F n g)
  obtain ⟨root, rank, hpart⟩ := hinv.partition
  refine ⟨s, hs, hpart.sound, fun node hnode => ?_⟩
  obtain ⟨⟨r, comms⟩, hfind, rfl, hcommunities⟩ := hpart.findRoot hnode
  obtain ⟨c, -, hc⟩ := hcommunities.returns_getElem? (hpart.forest.root_lt node hnode)
  refine ⟨root node, comms, c, hfind, hcommunities.sound, hc, fun edges hedges => ?_⟩
  have hstart : EdgeCount.Inv n root rank (root node) ⟨comms, s.edgeWeights, []⟩ :=
    ⟨hcommunities, hinv.weights, by simp⟩
  obtain ⟨t, ht, hcounted⟩ := returns_countEdge_prefix hg hedges hstart
  exact ⟨t, ht, hcounted.partition.sound⟩

/-- **The Rabbit layout**: the permutation numbers the nodes, and the communities stay sound
while they are merged, whatever the gains are. -/
theorem generateRabbitOrderPermutation_sound (S : StdSort ℕ) {h : HNSW} (hw : h.WellFormed) :
    ∃ g perm, buildUndirectedLevel0Graph S h h.levels.length = some g
      ∧ generateRabbitOrderPermutation S h h.levels.length F = some perm
      ∧ IsNumbering perm h.levels.length
      ∧ ∀ total : F, MergesSoundly S F h.levels.length g total := by
  obtain ⟨g, hgraph, hg⟩ := buildUndirectedLevel0Graph_isGraph S hw
  obtain ⟨perm, hperm, hnumbering⟩ := generateRabbitOrderPermutation_isNumbering S hw F
  exact ⟨g, perm, hgraph, hperm, hnumbering, fun total => mergesSoundly S hg total⟩

end Phases

theorem generateRabbitOrderPermutation_loopAndIsolated :
    ∃ g perm, buildUndirectedLevel0Graph StdSort.insertion loopAndIsolated 3 = some g
      ∧ generateRabbitOrderPermutation StdSort.insertion loopAndIsolated 3 ℚ = some perm
      ∧ IsNumbering perm 3 ∧ ∀ total : ℚ, MergesSoundly StdSort.insertion ℚ 3 g total :=
  generateRabbitOrderPermutation_sound StdSort.insertion loopAndIsolated_wellFormed

end Rvanns.Faiss
