import Rvanns.Faiss.Equiv.DistancesIf
import Rvanns.Faiss.Equiv.InvertedLists
import Rvanns.Faiss.IndexIVF

/-!
# What scans of inverted lists find

A scan of a list applies its function to the entries that pass the filter, in order, however the
list is cut into segments.
-/

namespace Rvanns.Faiss

open Cpp List Option
open Knowhere (DistId)

/-! ### The entries of one segment -/

section Scan

variable {V σ : Type} {sel : ℕ → Bool} {apply : σ → Entry V → σ}

/-- The entries that pass the filter. -/
def members (sel : ℕ → Bool) (es : List (Entry V)) : List (Entry V) :=
  es.filter fun e => sel e.id

lemma members_append (es es' : List (Entry V)) :
    members sel (es ++ es') = members sel es ++ members sel es' :=
  filter_append _ _

lemma mapM_foldl_eq_foldlM {α β : Type} (read : α → Option β) (f : σ → β → σ) (l : List α)
    (s : σ) : (do
        let group ← l.mapM read
        return group.foldl f s : Option σ)
      = l.foldlM (fun s a => do
        let b ← read a
        return f s b) s := by
  induction l generalizing s with
  | nil => rfl
  | cons a l ih =>
    rw [mapM_cons, foldlM_cons]
    cases hread : read a with
    | none => rfl
    | some b =>
      refine Eq.trans ?_ (ih (f s b))
      cases l.mapM read <;> rfl

/-- The scan of the first `ny` entries of `es`. -/
lemma fvecDistanceNyIf_eq {entries : ℕ → Option (Entry V)} {es : List (Entry V)}
    (hentries : ∀ j < ny, entries j = es[j]?) (hny : ny ≤ es.length) (s : σ) :
    fvecDistanceNyIf ny sel entries apply s
      = some ((members sel (es.take ny)).foldl apply s) := by
  let accepts : ℕ → Bool := fun j => (es[j]?).any fun e => sel e.id
  have hget : ∀ j < ny, ∃ e, es[j]? = some e := fun j hj =>
    ⟨_, getElem?_eq_getElem (by omega)⟩
  have hpred : ∀ j < ny, (do
      let entry ← entries j
      return some (sel entry.id) : Option (Option Bool)) = some (some (accepts j)) := by
    intro j hj
    obtain ⟨e, he⟩ := hget j hj
    have haccepts : accepts j = sel e.id := by
      show (es[j]?).any _ = _
      rw [he]
      rfl
    rw [hentries j hj, he, haccepts]
    rfl
  rw [fvecDistanceNyIf, bufferedIf_eq (fun s l _ => mapM_foldl_eq_foldlM entries apply l s)
    (by decide) (by decide) hpred, acceptedOf_some]
  clear hpred
  -- entry after entry
  induction ny with
  | zero => rfl
  | succ n ih =>
    obtain ⟨e, he⟩ := hget n (by omega)
    have haccepts : accepts n = sel e.id := by
      show (es[n]?).any _ = _
      rw [he]
      rfl
    have hih := ih (fun j hj => hentries j (by omega)) (by omega) fun j hj => hget j (by omega)
    rw [range_succ, filter_append, foldlM_append, hih, take_add_one, he,
      members_append, foldl_append]
    simp only [toList_some, members, filter_cons, filter_nil, haccepts]
    cases hmember : sel e.id with
    | false => rfl
    | true =>
      show ((entries n >>= fun entry => some (apply _ entry)) >>= some) = _
      rw [hentries n (by omega), he]
      rfl

variable {lists : InvertedLists V} {li c : ℕ} {es : List (Entry V)}

/-- A part of segment `i`. -/
lemma SegmentsOf.scan (h : SegmentsOf lists li c es) {i ny : ℕ} (hny : ny ≤ c)
    (hend : i * c + ny ≤ es.length) (s : σ) :
    fvecDistanceNyIf ny sel (lists.getEntries li (c * i)) apply s
      = some ((members sel ((es.drop (i * c)).take ny)).foldl apply s) := by
  apply fvecDistanceNyIf_eq
  · intro j hj
    rw [h.entries i j (by omega) (by omega), getElem?_drop]
  · rw [length_drop]
    omega

/-- The segments of a list, one after the other. -/
lemma SegmentsOf.scanAll (h : SegmentsOf lists li c es) (hne : es ≠ []) (s : σ) :
    (List.range (lists.getSegmentNum li)).foldlM (fun s segment =>
        fvecDistanceNyIf (lists.getSegmentSize li segment) sel
          (lists.getEntries li (lists.getSegmentOffset li segment)) apply s) s
      = some ((members sel es).foldl apply s) := by
  have hloop := foldlM_range_eq_pure (m := Option) (n := chunkNum c es.length)
    (S := fun i => (members sel (es.take (i * c))).foldl apply s)
    (f := fun s segment => fvecDistanceNyIf (lists.getSegmentSize li segment) sel
      (lists.getEntries li (lists.getSegmentOffset li segment)) apply s) fun i hi => by
        have hstart := (lt_chunkNum_iff h.pos).mp hi
        have hnext : es.take (i * c) ++ (es.drop (i * c)).take (min c (es.length - i * c))
            = es.take ((i + 1) * c) := by
          rw [← take_add, Nat.succ_mul]
          rcases lt_or_ge (es.length - i * c) c with hlast | hfull
          · rw [take_of_length_le (by omega), take_of_length_le (by omega)]
          · rw [min_eq_left hfull]
        rw [h.size i hstart, h.offset i hstart, h.scan (min_le_left _ _) (by omega), ← hnext,
          members_append, foldl_append]
        rfl
  rw [h.num hne]
  refine (Eq.trans ?_ hloop).trans ?_
  · rw [zero_mul]
    rfl
  · rw [take_of_length_le (le_chunkNum_mul h.pos)]
    rfl

end Scan

namespace IndexIVF

variable {Q V F : Type} {ix : IndexIVF Q V F} {sel : ℕ → Bool}

/-! ### A list of a search -/

/-- A scan of list `listNo`, whose entries are `es`. -/
lemma scanOneList_eq [LinearOrder F] [BoundedOrder F]
    (h : SegmentsOf lists li c es) (hlt : li < ix.nlist) (x : Q) (k : ℕ) (coarseDis : F)
    (heap : ℕ → F × ℤ) :
    ix.scanOneList lists x sel k li coarseDis heap = .ok ((members sel es).foldl
        (ix.applyEntry k (ix.distance x li coarseDis)) (0, heap)) := by
  unfold scanOneList
  rw [if_neg (by omega), if_neg (by omega)]
  dsimp only
  rw [Int.toNat_natCast, h.listSize]
  split_ifs with hempty
  · rw [length_eq_zero_iff.mp hempty]
    rfl
  · have hne : es ≠ [] := fun hnil => hempty (by rw [hnil, length_nil])
    rw [h.scanAll hne]
    rfl

/-! ### A list of an iterator -/

def Sees (c : ℕ → ℕ) (cs : ℕ → List (Entry V)) (lists : InvertedLists V) : Prop :=
  ∀ li, ∃ es, cs li <+: es ∧ SegmentsOf lists li (c li) es

variable {c : ℕ → ℕ} {cs : ℕ → List (Entry V)} {live : ℕ → InvertedLists V} {li : ℕ}

lemma scanSegments_eq (hlive : ∀ t, Sees c cs (live t)) (dis : V → F)
    {count segment scanCnt : ℕ} {dists : List (DistId F)}
    (hcnt : scanCnt = min (cs li).length (segment * c li))
    (hend : (cs li).length ≤ (segment + count) * c li) :
    scanSegments dis live sel li (cs li).length count segment scanCnt dists
      = some (dists ++ (members sel ((cs li).drop (segment * c li))).map
        fun e => ⟨e.id, dis e.code⟩) := by
  induction count generalizing segment scanCnt dists with
  | zero =>
    rw [add_zero] at hend
    rw [drop_of_length_le hend]
    exact congrArg some (append_nil dists).symm
  | succ count ih =>
    have hsucc : (segment + 1) * c li = segment * c li + c li := Nat.succ_mul _ _
    rw [scanSegments]
    dsimp only
    rcases lt_or_ge (segment * c li) (cs li).length with hmore | hdone
    · -- three reads at different moments, each of at least `cs`
      obtain ⟨es, hes, hsees⟩ := hlive (2 + 3 * segment) li
      obtain ⟨es', hes', hsees'⟩ := hlive (3 + 3 * segment) li
      obtain ⟨es'', hes'', hsees''⟩ := hlive (4 + 3 * segment) li
      have hlen := hes.length_le
      have hlen' := hes'.length_le
      have hlen'' := hes''.length_le
      have hpos := hsees.pos
      set should := min (c li) ((cs li).length - segment * c li) with hshould
      have hscan : min ((live (2 + 3 * segment)).getSegmentSize li segment)
          ((cs li).length - scanCnt) = should := by
        rw [hsees.size segment (by omega)]
        omega
      have hpart : (es''.drop (segment * c li)).take should
          = ((cs li).drop (segment * c li)).take should := by
        obtain ⟨more, rfl⟩ := hes''
        rw [drop_append_of_le_length hmore.le, take_append_of_le_length (by
          rw [length_drop]
          omega)]
      have hsplit : (cs li).drop (segment * c li)
          = ((cs li).drop (segment * c li)).take should
            ++ (cs li).drop ((segment + 1) * c li) := by
        conv_lhs => rw [← take_append_drop should ((cs li).drop (segment * c li)),
          drop_drop]
        congr 1
        rcases lt_or_ge ((cs li).length - segment * c li) (c li)
          with hlast | hfull
        · rw [drop_of_length_le (by omega), drop_of_length_le (by omega)]
        · rw [hsucc, hshould, min_eq_left hfull]
      rw [hscan, if_neg (by omega), hsees'.offset segment (by omega),
        hsees''.scan (by omega) (by omega), hpart]
      simp only [some_bind]
      rw [ih (by omega) (by rw [add_right_comm]; exact hend), foldl_append_eq_append, ←
        flatMap_def, ← map_eq_flatMap, append_assoc, ← map_append, ← members_append, ← hsplit]
    · -- all entries have been scanned
      rw [drop_of_length_le hdone, if_pos (by omega)]
      exact congrArg some (append_nil dists).symm

def found (ix : IndexIVF Q V F) (cs : ℕ → List (Entry V)) (sel : ℕ → Bool) (x : Q)
    (p : ℤ × F) : List (DistId F) :=
  (members sel (cs p.1.toNat)).map fun e =>
    ⟨e.id, ix.distance x p.1.toNat p.2 e.code⟩

lemma visitList_eq (hlive : ∀ t, Sees c cs (live t))
    (hcoarse : ws.coarse[i]? = some ((li : ℤ), coarseDis)) (hlt : li < ix.nlist)
    (hsize : ws.coarseListSizes[li]? = some (cs li).length) (dists : List (DistId F)) :
    ix.visitList live sel ws i dists
      = .ok (dists ++ ix.found cs sel ws.queryData (li, coarseDis)) := by
  obtain ⟨es, hes, hsees⟩ := hlive 0 li
  obtain ⟨es', hes', hsees'⟩ := hlive 1 li
  unfold visitList
  rw [hcoarse]
  simp only [defined_bind_some, rd_natCast, hsize]
  rw [if_neg (by omega), if_neg (by omega), Int.toNat_natCast, hsees.listSize]
  by_cases hempty : es.length = 0
  · have hnone : cs li = [] := by
      have hle := hes.length_le
      exact length_eq_zero_iff.mp (by omega)
    rw [if_pos hempty, found, Int.toNat_natCast, hnone]
    exact congrArg Except.ok (append_nil dists).symm
  · have henough : (cs li).length ≤ (live 1).getSegmentNum li * c li := by
      by_cases hnone : es' = []
      · rw [hnone] at hes'
        rw [prefix_nil.mp hes']
        exact Nat.zero_le _
      · rw [hsees'.num hnone]
        exact hes'.length_le.trans (le_chunkNum_mul hsees'.pos)
    rw [if_neg hempty, scanSegments_eq hlive _ (by simp) (by rwa [zero_add]), zero_mul]
    rfl

/-! ### A batch -/

/-- The quantizer returned each of the lists once. -/
def CoversLists (nlist : ℕ) (coarse : List (ℤ × F)) : Prop :=
  (coarse.map Prod.fst).Perm ((List.range nlist).map Nat.cast)

lemma CoversLists.length_eq {nlist : ℕ} {coarse : List (ℤ × F)} (h : CoversLists nlist coarse) :
    coarse.length = nlist := by
  have hlen := List.Perm.length_eq h
  rwa [length_map, length_map, length_range] at hlen

lemma CoversLists.getElem? {nlist : ℕ} {coarse : List (ℤ × F)} (h : CoversLists nlist coarse)
    {i : ℕ} (hi : i < nlist) : ∃ (li : ℕ) (coarseDis : F),
      coarse[i]? = some ((li : ℤ), coarseDis) ∧ li < nlist := by
  have hlen := h.length_eq
  obtain ⟨p, hp⟩ : ∃ p, coarse[i]? = some p := ⟨_, getElem?_eq_getElem (by omega)⟩
  have hmem := h.mem_iff.mp (mem_map_of_mem (f := Prod.fst) (mem_of_getElem? hp))
  obtain ⟨li, hlist, heq⟩ := mem_map.mp hmem
  exact ⟨li, p.2, by rw [hp, heq], mem_range.mp hlist⟩

structure Valid (ix : IndexIVF Q V F) (cs : ℕ → List (Entry V))
    (ws : IVFIteratorWorkspace Q F) : Prop where
  covers : CoversLists ix.nlist ws.coarse
  sizes : ws.coarseListSizes
    = (List.range ix.nlist).map fun li => (cs li).length

/-- What the visits up to the current one found. -/
def delivered (ix : IndexIVF Q V F) (cs : ℕ → List (Entry V)) (sel : ℕ → Bool)
    (ws : IVFIteratorWorkspace Q F) : List (DistId F) :=
  (ws.coarse.take ws.nextVisitCoarseListIdx).flatMap
    (ix.found cs sel ws.queryData)

section

variable {live : ℕ → ℕ → InvertedLists V} (hlive : ∀ i t, Sees c cs (live i t))

include hlive

lemma nextBatchLoop_spec (current : ℕ) {fuel : ℕ}
    {ws : IVFIteratorWorkspace Q F} {dists : List (DistId F)} (hvalid : Valid ix cs ws)
    (hfuel : ws.nextVisitCoarseListIdx + fuel = ix.nlist) :
    ∃ batch next, next ≤ ix.nlist
      ∧ ix.nextBatchLoop live sel current fuel ws dists
        = .ok (dists ++ batch, { ws with nextVisitCoarseListIdx := next })
      ∧ ix.delivered cs sel { ws with nextVisitCoarseListIdx := next }
        = ix.delivered cs sel ws ++ batch
      ∧ (current + (dists ++ batch).length < ws.backupCountThreshold →
        next = ix.nlist) := by
  induction fuel generalizing ws dists with
  | zero =>
    exact ⟨[], ws.nextVisitCoarseListIdx, by omega, by rw [append_nil]; rfl,
      (append_nil _).symm, fun _ => by omega⟩
  | succ fuel ih =>
    rw [nextBatchLoop]
    dsimp only
    split_ifs with hgo
    · obtain ⟨li, coarseDis, hcoarse, hlt⟩ := hvalid.covers.getElem? hgo.2
      have hsize : ws.coarseListSizes[li]? = some (cs li).length := by
        rw [hvalid.sizes, getElem?_range_map hlt]
      obtain ⟨batch, next, hnext, hloop, hdelivered, hall⟩ :=
        @ih { ws with
          nextVisitCoarseListIdx := ws.nextVisitCoarseListIdx + 1 }
          (dists ++ ix.found cs sel ws.queryData (li, coarseDis))
          ⟨hvalid.covers, hvalid.sizes⟩ (by dsimp only; omega)
      rw [append_assoc] at hloop hall
      have hvisit : ix.visitList (live ws.nextVisitCoarseListIdx) sel
          { ws with nextVisitCoarseListIdx := ws.nextVisitCoarseListIdx + 1 }
          ws.nextVisitCoarseListIdx dists
        = .ok (dists ++ ix.found cs sel ws.queryData (li, coarseDis)) :=
        visitList_eq (hlive _) hcoarse hlt hsize dists
      refine ⟨_, next, hnext, ?_, ?_, hall⟩
      · rw [hvisit]
        exact hloop
      · rw [hdelivered, ← append_assoc]
        congr 1
        simp only [delivered]
        rw [take_add_one, hcoarse]
        simp
    · refine ⟨[], ws.nextVisitCoarseListIdx, by omega, by rw [append_nil]; rfl,
        (append_nil _).symm, fun hfew => ?_⟩
      rw [append_nil] at hfew
      by_contra hne
      exact hgo ⟨hfew, by omega⟩

lemma getIteratorNextBatch_spec (hvalid : Valid ix cs ws)
    (hle : ws.nextVisitCoarseListIdx ≤ ix.nlist) (current : ℕ) : ∃ batch next,
      next ≤ ix.nlist
      ∧ ix.getIteratorNextBatch live sel ws current
        = .ok (batch, { ws with nextVisitCoarseListIdx := next })
      ∧ ix.delivered cs sel { ws with nextVisitCoarseListIdx := next }
        = ix.delivered cs sel ws ++ batch
      ∧ (current + batch.length < ws.backupCountThreshold → next = ix.nlist) :=
  nextBatchLoop_spec hlive current hvalid (by omega)

end

end IndexIVF

end Rvanns.Faiss
