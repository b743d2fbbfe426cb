import Rvanns.Faiss.Equiv.HNSW
import Rvanns.Faiss.HnswSearcher

/-!
# The neighbours that a search discovers

`evaluate_single_node` saves nodes and evaluates four at a time.
-/

namespace Rvanns.Faiss.HnswSearcher

open Cpp List Option

/-! ### Marks -/

def IsMarked (vis : List Bool) (v : ℕ) : Prop := vis[v]? = some true

instance (vis : List Bool) (v : ℕ) : Decidable (IsMarked vis v) :=
  inferInstanceAs (Decidable (_ = _))

variable {vis : List Bool} {v : ℕ}

lemma IsMarked.lt_length (h : IsMarked vis v) : v < vis.length :=
  (List.getElem?_eq_some_iff.mp h).choose

lemma isMarked_set (hv : v < vis.length) :
    IsMarked (vis.set v true) u ↔ u = v ∨ IsMarked vis u := by
  unfold IsMarked
  rw [getElem?_set_of_lt hv]
  split_ifs with h
  · simp [h]
  · simp [Ne.symm h]

lemma getElem?_of_not_isMarked (hv : v < vis.length) (h : ¬ IsMarked vis v) :
    vis[v]? = some false := by
  unfold IsMarked at h
  rw [getElem?_eq_getElem hv] at h ⊢
  simpa using h

lemma count_set (hv : v < vis.length) (h : ¬ IsMarked vis v) :
    (vis.set v true).count false + 1 = vis.count false := by
  have hget := getElem?_of_not_isMarked hv h
  have hpos : 0 < vis.count false := count_pos_iff.mpr (mem_of_getElem? hget)
  obtain ⟨hlt, hval⟩ := List.getElem?_eq_some_iff.mp hget
  rw [List.count_set hlt, hval]
  simp only [BEq.rfl, if_true, Bool.true_beq, Bool.false_eq_true, if_false, add_zero]
  omega

lemma length_add_count_le {l : List ℕ} (hl : l.Nodup) (hmarked : ∀ v ∈ l, IsMarked vis v) :
    l.length + vis.count false ≤ vis.length := by
  induction l generalizing vis with
  | nil => simpa using count_le_length
  | cons v l ih =>
    obtain ⟨hvl, hl⟩ := nodup_cons.mp hl
    obtain ⟨hv, hmarked⟩ := forall_mem_cons.mp hmarked
    obtain ⟨hlt, hval⟩ := List.getElem?_eq_some_iff.mp hv
    -- without the mark of `v`, the others still have theirs
    have hrest : ∀ u ∈ l, IsMarked (vis.set v false) u := by
      intro u hu
      have hne : v ≠ u := fun heq => hvl (heq ▸ hu)
      unfold IsMarked
      rw [getElem?_set_ne hne]
      exact hmarked u hu
    have hcount : (vis.set v false).count false = vis.count false + 1 := by
      rw [List.count_set hlt, hval]
      simp
    have hle := ih hl hrest
    rw [length_set] at hle
    rw [length_cons]
    omega

/-! ### Discovery -/

variable {D : Type} (s : HnswSearcher D)

structure Discovery where
  visited : List Bool
  alpha : ℚ
  fresh : List ℕ := []

def gate (v : ℕ) (alpha : ℚ) : Bool × ℚ :=
  if s.isMember v then (true, alpha)
  else if alpha + s.kAlpha < 1 then (false, alpha + s.kAlpha)
  else (true, alpha + s.kAlpha - 1)

def discover : List ℕ → List Bool → ℚ → Discovery
  | [], vis, alpha => { visited := vis, alpha := alpha }
  | v :: ids, vis, alpha =>
    if IsMarked vis v then discover ids vis alpha
    else
      let d := discover ids (vis.set v true) (s.gate v alpha).2
      if (s.gate v alpha).1 then { d with fresh := v :: d.fresh } else d

structure Discovered (ids : List ℕ) (vis : List Bool) (alpha : ℚ) (d : Discovery) : Prop where
  length_eq : d.visited.length = vis.length
  marked_iff : ∀ u, IsMarked d.visited u ↔ IsMarked vis u ∨ u ∈ ids
  nodup : d.fresh.Nodup
  subset : ∀ u ∈ d.fresh, u ∈ ids ∧ ¬ IsMarked vis u
  count_le : d.visited.count false + d.fresh.length ≤ vis.count false
  member : ∀ u ∈ ids, s.isMember u = true → ¬ IsMarked vis u → u ∈ d.fresh
  /-- The setting of an iterator, which hands every node on. -/
  all : s.kAlpha = 1 → 1 ≤ alpha → d.alpha = alpha ∧ ∀ u ∈ ids, ¬ IsMarked vis u → u ∈ d.fresh

variable {s} {ids : List ℕ} {alpha : ℚ} {d : Discovery}

lemma Discovered.mono (h : s.Discovered ids vis alpha d) :
    ∀ u, IsMarked vis u → IsMarked d.visited u :=
  fun u hu => (h.marked_iff u).mpr (.inl hu)

lemma gate_of_member (h : s.isMember v = true) : s.gate v alpha = (true, alpha) := if_pos h

lemma gate_of_all (hk : s.kAlpha = 1) (ha : 1 ≤ alpha) : s.gate v alpha = (true, alpha) := by
  unfold gate
  rw [hk]
  split_ifs with hmember hlt
  · rfl
  · linarith
  · rw [add_sub_cancel_right]

lemma Discovered.nil (vis : List Bool) (alpha : ℚ) :
    s.Discovered [] vis alpha { visited := vis, alpha := alpha } where
  length_eq := rfl
  marked_iff := by simp
  nodup := nodup_nil
  subset := by simp
  count_le := by simp
  member := by simp
  all := by simp

lemma Discovered.seen (h : s.Discovered ids vis alpha d) (hv : IsMarked vis v) :
    s.Discovered (v :: ids) vis alpha d where
  length_eq := h.length_eq
  marked_iff u := by
    rw [h.marked_iff u, mem_cons]
    constructor
    · exact fun hu => hu.imp_right .inr
    · rintro (hu | rfl | hu)
      · exact .inl hu
      · exact .inl hv
      · exact .inr hu
  nodup := h.nodup
  subset u hu := (h.subset u hu).imp_left (mem_cons_of_mem v)
  count_le := h.count_le
  member u hu hmember hnew := by
    rcases mem_cons.mp hu with rfl | hu
    · exact absurd hv hnew
    · exact h.member u hu hmember hnew
  all hk ha := by
    obtain ⟨halpha, hall⟩ := h.all hk ha
    refine ⟨halpha, fun u hu hnew => ?_⟩
    rcases mem_cons.mp hu with rfl | hu
    · exact absurd hv hnew
    · exact hall u hu hnew

section

variable (h : s.Discovered ids (vis.set v true) alpha' d) (hlt : v < vis.length)
  (hv : ¬ IsMarked vis v)

include h hlt hv

lemma Discovered.handOn (halpha : s.kAlpha = 1 → 1 ≤ alpha → alpha' = alpha) :
    s.Discovered (v :: ids) vis alpha { d with fresh := v :: d.fresh } where
  length_eq := by rw [h.length_eq, length_set]
  marked_iff u := by
    rw [h.marked_iff u, isMarked_set hlt, mem_cons]
    tauto
  nodup := by
    refine nodup_cons.mpr ⟨fun hmem => ?_, h.nodup⟩
    exact (h.subset v hmem).2 ((isMarked_set hlt).mpr (.inl rfl))
  subset u hu := by
    rcases mem_cons.mp hu with rfl | hu
    · exact ⟨mem_cons_self, hv⟩
    · obtain ⟨hids, hnew⟩ := h.subset u hu
      rw [isMarked_set hlt, not_or] at hnew
      exact ⟨mem_cons_of_mem v hids, hnew.2⟩
  count_le := by
    have hcount := count_set hlt hv
    have hle := h.count_le
    show d.visited.count false + (v :: d.fresh).length ≤ vis.count false
    rw [length_cons]
    omega
  member u hu hmember hnew := by
    by_cases huv : u = v
    · exact huv ▸ mem_cons_self
    · refine mem_cons_of_mem v (h.member u ((mem_cons.mp hu).resolve_left huv) hmember ?_)
      rw [isMarked_set hlt, not_or]
      exact ⟨huv, hnew⟩
  all hk ha := by
    obtain ⟨hd, hall⟩ := h.all hk ((halpha hk ha).symm ▸ ha)
    refine ⟨hd.trans (halpha hk ha), fun u hu hnew => ?_⟩
    by_cases huv : u = v
    · exact huv ▸ mem_cons_self
    · refine mem_cons_of_mem v (hall u ((mem_cons.mp hu).resolve_left huv) ?_)
      rw [isMarked_set hlt, not_or]
      exact ⟨huv, hnew⟩

lemma Discovered.keepBack (hgate : (s.gate v alpha).1 = false) :
    s.Discovered (v :: ids) vis alpha d where
  length_eq := by rw [h.length_eq, length_set]
  marked_iff u := by
    rw [h.marked_iff u, isMarked_set hlt, mem_cons]
    tauto
  nodup := h.nodup
  subset u hu := by
    obtain ⟨hids, hnew⟩ := h.subset u hu
    rw [isMarked_set hlt, not_or] at hnew
    exact ⟨mem_cons_of_mem v hids, hnew.2⟩
  count_le := by
    have hcount := count_set hlt hv
    have hle := h.count_le
    omega
  member u hu hmember hnew := by
    have huv : u ≠ v := by
      rintro rfl
      simp [gate_of_member hmember] at hgate
    apply h.member u ((mem_cons.mp hu).resolve_left huv) hmember
    rw [isMarked_set hlt, not_or]
    exact ⟨huv, hnew⟩
  all hk ha := by simp [gate_of_all hk ha] at hgate

end

/-- **Discovery**: every neighbour has a mark afterwards, the nodes handed on are new and different,
and all that pass the filter are among them. -/
theorem discovered (ids : List ℕ) (vis : List Bool) (alpha : ℚ) (hids : ∀ v ∈ ids, v < vis.length) :
    s.Discovered ids vis alpha (s.discover ids vis alpha) := by
  induction ids generalizing vis alpha with
  | nil => exact Discovered.nil vis alpha
  | cons v ids ih =>
    obtain ⟨hlt, hrest⟩ := forall_mem_cons.mp hids
    unfold discover
    by_cases hv : IsMarked vis v
    · rw [if_pos hv]
      exact (ih vis alpha hrest).seen hv
    · have hd := ih (vis.set v true) (s.gate v alpha).2 (by simpa only [length_set] using hrest)
      split_ifs with hgate
      · exact hd.handOn hlt hv fun hk ha => by rw [gate_of_all hk ha]
      · exact hd.keepBack hlt hv (Bool.eq_false_of_not_eq_true hgate)

/-! ### The loop of `evaluate_single_node` -/

variable (s) {σ : Type} {add : σ → Neighbor D → σ}

def handOn (add : σ → Neighbor D → σ) (cands : σ) (fresh : List ℕ) : σ :=
  fresh.foldl (fun cands v => add cands (s.neighbor v (s.qdis v))) cands

variable {s}

lemma handOn_append (cands : σ) (l l' : List ℕ) :
    s.handOn add cands (l ++ l') = s.handOn add (s.handOn add cands l) l' :=
  foldl_append

def withStatus (s : HnswSearcher D) (v : ℕ) : ℕ × NeighborStatus :=
  (v, if s.isMember v then .valid else .invalid)

lemma distance_of_lt (hv : v < s.ntotal) : s.distance v = some (s.qdis v) := if_pos hv

lemma flush_eq (cands : σ) (hl : ∀ v ∈ l, v < s.ntotal) :
    s.flush add (l.map s.withStatus) cands = some (s.handOn add cands l) := by
  induction l generalizing cands with
  | nil => rfl
  | cons v l ih =>
    obtain ⟨hv, hrest⟩ := forall_mem_cons.mp hl
    rw [map_cons, flush, foldlM_cons, withStatus, distance_of_lt hv]
    exact ih _ hrest

def Evaluation.Reached (s : HnswSearcher D) (add : σ → Neighbor D → σ) (cands : σ)
    (vis : List Bool) (alpha : ℚ) (fresh : List ℕ) (e : Evaluation σ) : Prop :=
  e.visited = vis ∧ e.alpha = alpha ∧ ∃ done waiting, fresh = done ++ waiting ∧
    e.saved = waiting.map s.withStatus ∧ e.candidates = s.handOn add cands done

lemma save_reached (he : e.Reached s add cands vis alpha fresh) (hfresh : ∀ u ∈ fresh, u < s.ntotal)
    (hv : v < s.ntotal) :
    Returns (s.save add e v (s.withStatus v).2)
      (Evaluation.Reached s add cands vis alpha (fresh ++ [v])) := by
  obtain ⟨hvisited, halpha, done, waiting, rfl, hsaved, hcand⟩ := he
  have happend : e.saved ++ [(v, (s.withStatus v).2)] = (waiting ++ [v]).map s.withStatus := by
    rw [hsaved, map_append]
    rfl
  unfold save
  dsimp only
  rw [happend]
  split_ifs
  · -- the fourth node: all that wait are handed on
    rw [flush_eq]
    · refine .pure ⟨hvisited, halpha, done ++ (waiting ++ [v]), [], ?_, rfl, ?_⟩
      · simp
      · rw [hcand]
        exact (handOn_append cands done (waiting ++ [v])).symm
    · exact forall_mem_concat.mpr ⟨fun u hu => hfresh u (mem_append_right done hu), hv⟩
  · exact .pure ⟨hvisited, halpha, done, waiting ++ [v], by simp, rfl, hcand⟩

lemma evaluateNeighbor_reached
    (he : e.Reached s add cands vis alpha fresh) (hfresh : ∀ u ∈ fresh, u < s.ntotal)
    (hlen : vis.length = s.ntotal) (hv : v < s.ntotal) :
    Returns (s.evaluateNeighbor add e v)
      (if IsMarked vis v then Evaluation.Reached s add cands vis alpha fresh
        else Evaluation.Reached s add cands (vis.set v true) (s.gate v alpha).2
          (if (s.gate v alpha).1 then fresh ++ [v] else fresh)) := by
  have hvisited := he.1
  have halpha := he.2.1
  have hlt : v < vis.length := hlen ▸ hv
  unfold evaluateNeighbor
  rw [hvisited]
  by_cases hmark : IsMarked vis v
  · rw [if_pos hmark, hmark]
    exact .pure he
  · have hnext : ({ e with visited := vis.set v true } : Evaluation σ).Reached s add cands
        (vis.set v true) alpha fresh := ⟨rfl, halpha, he.2.2⟩
    rw [if_neg hmark, getElem?_of_not_isMarked hlt hmark]
    unfold gate
    by_cases hmember : s.isMember v = true
    · have hstatus : (s.withStatus v).2 = .valid := if_pos hmember
      simp only [hmember, if_true]
      exact hstatus ▸ save_reached hnext hfresh hv
    · have hstatus : (s.withStatus v).2 = .invalid := if_neg hmember
      simp only [hmember, Bool.false_eq_true, if_false, halpha]
      by_cases hlow : alpha + s.kAlpha < 1
      · simp only [hlow, if_true, Bool.false_eq_true, if_false]
        exact .pure ⟨rfl, rfl, he.2.2⟩
      · simp only [hlow, if_false, if_true]
        have hlowered : ({ e with
            visited := vis.set v true
            alpha := alpha + s.kAlpha - 1 } : Evaluation σ).Reached s add cands
            (vis.set v true) (alpha + s.kAlpha - 1) fresh := ⟨rfl, rfl, he.2.2⟩
        exact hstatus ▸ save_reached hlowered hfresh hv

lemma evaluateNeighbors_reached
    (he : e.Reached s add cands vis alpha fresh) (hfresh : ∀ u ∈ fresh, u < s.ntotal)
    (hlen : vis.length = s.ntotal) (hids : ∀ v ∈ ids, v < s.ntotal) :
    Returns (ids.foldlM (s.evaluateNeighbor add) e)
      (Evaluation.Reached s add cands (s.discover ids vis alpha).visited
        (s.discover ids vis alpha).alpha (fresh ++ (s.discover ids vis alpha).fresh)) := by
  induction ids generalizing e vis alpha fresh with
  | nil =>
    rw [discover, append_nil]
    exact .pure he
  | cons v ids ih =>
    obtain ⟨hv, hrest⟩ := forall_mem_cons.mp hids
    have hlen' : (vis.set v true).length = s.ntotal := by rw [length_set, hlen]
    rw [discover]
    refine (evaluateNeighbor_reached he hfresh hlen hv).bind fun e' he' => ?_
    by_cases hmark : IsMarked vis v
    · rw [if_pos hmark] at he' ⊢
      exact ih he' hfresh hlen hrest
    · rw [if_neg hmark] at he' ⊢
      by_cases hgate : (s.gate v alpha).1 = true
      · rw [if_pos hgate] at he'
        rw [if_pos hgate, append_cons]
        exact ih he' (forall_mem_concat.mpr ⟨hfresh, hv⟩) hlen' hrest
      · rw [if_neg hgate] at he'
        rw [if_neg hgate]
        exact ih he' hfresh hlen' hrest

lemma evaluateNeighbor_length (h : s.evaluateNeighbor add e v = some e') :
    v < e.visited.length ∧ e'.visited.length = e.visited.length := by
  obtain ⟨seen, hseen, hbody⟩ := bind_eq_some_iff.mp h
  have hlt := lt_length hseen
  -- saving a node leaves the marks alone
  have hsave : ∀ (f f' : Evaluation σ) (status : NeighborStatus),
      s.save add f v status = some f' → f'.visited = f.visited := by
    intro f f' status hf
    unfold save at hf
    dsimp only at hf
    split_ifs at hf
    · obtain ⟨cands, -, hcand⟩ := bind_eq_some_iff.mp hf
      rw [← some.inj hcand]
    · rw [← some.inj hf]
  refine ⟨hlt, ?_⟩
  dsimp only at hbody
  split_ifs at hbody
  · rw [← some.inj hbody]
  · rw [hsave _ _ _ hbody, length_set]
  · rw [← some.inj hbody, length_set]
  · rw [hsave _ _ _ hbody, length_set]

lemma lt_of_evaluateNeighbors
    (h : ids.foldlM (s.evaluateNeighbor add) e = some e') : ∀ u ∈ ids, u < e.visited.length := by
  induction ids generalizing e with
  | nil => simp
  | cons v ids ih =>
    obtain ⟨next, hnext, hrest⟩ := bind_eq_some_iff.mp h
    obtain ⟨hlt, hlen⟩ := evaluateNeighbor_length hnext
    intro u hu
    rcases mem_cons.mp hu with rfl | hu
    · exact hlt
    · exact hlen ▸ ih hrest u hu

/-- **What `evaluate_single_node` does**: it is defined if the neighbours can be read and are nodes,
and hands on the nodes that are discovered, each with its distance. -/
theorem evaluateSingleNode_eq_some_iff (hlen : vis.length = s.ntotal) :
    s.evaluateSingleNode add node level vis alpha cands = some r ↔
      ∃ ids, s.hnsw.neighborIds node level = some ids ∧ (∀ u ∈ ids, u < s.ntotal) ∧
        r = ((s.discover ids vis alpha).visited, (s.discover ids vis alpha).alpha,
          s.handOn add cands (s.discover ids vis alpha).fresh) := by
  have hrun : ∀ ids, (∀ u ∈ ids, u < s.ntotal) → ∃ e, ids.foldlM (s.evaluateNeighbor add)
        { visited := vis, alpha := alpha, candidates := cands } = some e ∧
      s.flush add e.saved e.candidates
        = some (s.handOn add cands (s.discover ids vis alpha).fresh) ∧
      e.visited = (s.discover ids vis alpha).visited ∧
      e.alpha = (s.discover ids vis alpha).alpha := by
    intro ids hids
    have hstart : Evaluation.Reached s add cands vis alpha []
        { visited := vis, alpha := alpha, candidates := cands } :=
      ⟨rfl, rfl, [], [], rfl, rfl, rfl⟩
    obtain ⟨e, he, hvisited, halpha, done, waiting, hfresh, hsaved, hcand⟩ :=
      evaluateNeighbors_reached hstart (by simp) hlen hids
    have hd := discovered (s := s) ids vis alpha (by rw [hlen]; exact hids)
    refine ⟨e, he, ?_, hvisited, halpha⟩
    rw [nil_append] at hfresh
    rw [hsaved, hcand, flush_eq, hfresh, handOn_append]
    intro u hu
    exact hids u (hd.subset u (hfresh ▸ mem_append_right done hu)).1
  unfold evaluateSingleNode
  constructor
  · intro h
    obtain ⟨ids, hids, h⟩ := bind_eq_some_iff.mp h
    obtain ⟨e, he, h⟩ := bind_eq_some_iff.mp h
    obtain ⟨result, hresult, h⟩ := bind_eq_some_iff.mp h
    have hlt : ∀ u ∈ ids, u < s.ntotal := hlen ▸ lt_of_evaluateNeighbors he
    obtain ⟨e', he', hflush, hvisited, halpha⟩ := hrun ids hlt
    obtain rfl := mem_unique he he'
    obtain rfl := mem_unique hresult hflush
    exact ⟨ids, hids, hlt, by rw [← some.inj h, hvisited, halpha]⟩
  · rintro ⟨ids, hids, hlt, rfl⟩
    obtain ⟨e, he, hflush, hvisited, halpha⟩ := hrun ids hlt
    simp [hids, he, hflush, hvisited, halpha]

end Rvanns.Faiss.HnswSearcher
