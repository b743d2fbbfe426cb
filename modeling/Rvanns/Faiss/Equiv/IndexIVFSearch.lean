import Rvanns.Faiss.Equiv.Heap
import Rvanns.Faiss.Equiv.IndexIVF

/-!
# How many results a search of inverted lists returns

The heap of a search begins with `k` neutral elements and is offered the entries that are scanned.
-/

namespace Rvanns.Faiss

open Cpp List
open Multiset (card coe_card filter_add le_add_right mem_add mem_coe)
open Knowhere (DistId)

/-! ### A heap of neutral elements that is offered others -/

section Offered

variable {F : Type} [LinearOrder F] {C : Cmp F} {k : ℕ} {bh : ℕ → F × ℤ} {offered : List (F × ℤ)}

def emptyHeap [Zero F] (C : Cmp F) (k : ℕ) : ℕ → F × ℤ :=
  fun j => if 0 < j ∧ j ≤ k then (C.neutral, -1) else (0, 0)

lemma heapHeapify_empty [Zero F] (C : Cmp F) (k : ℕ) :
    heapHeapify C k (fun _ => none) (fun _ => none) 0 (fun _ => (0, 0)) = some (emptyHeap C k) :=
  rfl

omit [LinearOrder F] in
lemma contents_eq_replicate (n : ℕ) (h : ∀ j, 1 ≤ j → j ≤ n → bh j = a) :
    contents bh n = Multiset.replicate n a := by
  induction n with
  | zero => rfl
  | succ n ih =>
    rw [contents_succ, h (n + 1) (by omega) le_rfl, ih fun j h1 hj => h j h1 (by omega),
      Multiset.replicate_succ]

omit [LinearOrder F] in
lemma emptyHeap_of_le [Zero F] (h1 : 1 ≤ j) (hj : j ≤ k) :
    emptyHeap C k j = (C.neutral, -1) := if_pos ⟨h1, hj⟩

omit [LinearOrder F] in
lemma contents_emptyHeap [Zero F] (C : Cmp F) (k : ℕ) :
    contents (emptyHeap C k) k = Multiset.replicate k (C.neutral, -1) :=
  contents_eq_replicate k fun _ h1 hj => emptyHeap_of_le h1 hj

lemma keeps_emptyHeap [Zero F] (C : Cmp F) (k : ℕ) :
    Keeps C k (emptyHeap C k) (Multiset.replicate k (C.neutral, -1)) := by
  refine ⟨fun j h2 hj => ?_, 0, ?_, fun r hr => absurd hr (Multiset.notMem_zero r)⟩
  · rw [emptyHeap_of_le (by omega) hj, emptyHeap_of_le (by omega) (by omega)]
    exact C.above_strictWeak.irrefl _
  · rw [Multiset.add_zero, contents_emptyHeap]

def trueContents (bh : ℕ → F × ℤ) (k : ℕ) : Multiset (F × ℤ) := (contents bh k).filter (·.2 ≠ -1)

omit [LinearOrder F] in
lemma card_trueContents_le (bh : ℕ → F × ℤ) (k : ℕ) : (trueContents bh k).card ≤ k := by
  have hfilter := Multiset.card_le_card (Multiset.filter_le (·.2 ≠ -1) (contents bh k))
  rwa [card_contents] at hfilter

lemma coe_trueElements_drain (h : IsHeap C.above bh k) :
    (↑(trueElements (drain C k bh)) : Multiset (F × ℤ)) = trueContents bh k := by
  rw [trueContents, ← coe_drain h]
  rfl

abbrev OfferedTo (C : Cmp F) (k : ℕ) (offered : List (F × ℤ)) (bh : ℕ → F × ℤ) : Prop :=
  Keeps C k bh (Multiset.replicate k (C.neutral, -1) + (↑offered : Multiset (F × ℤ)))

lemma OfferedTo.trueContents_add (h : OfferedTo C k offered bh) (htrue : ∀ r ∈ offered, r.2 ≠ -1) :
    ∃ out, trueContents bh k + out = ↑offered
      ∧ ∀ r ∈ out, ∀ t ∈ contents bh k, ¬ C.cmp t.1 r.1 := by
  obtain ⟨rest, hsum, hrest⟩ := h.best
  refine ⟨rest.filter (·.2 ≠ -1), ?_, fun r hr => hrest r (Multiset.mem_of_mem_filter hr)⟩
  have hpads : (Multiset.replicate k (C.neutral, (-1 : ℤ))).filter (·.2 ≠ -1) = 0 :=
    Multiset.filter_eq_nil.mpr fun r hr => by simp [Multiset.eq_of_mem_replicate hr]
  have hall := Multiset.filter_eq_self.mpr fun r hr => htrue r (mem_coe.mp hr)
  rw [trueContents, ← filter_add, hsum, filter_add, hpads, hall,
    Multiset.zero_add]

lemma OfferedTo.card_trueContents (h : OfferedTo C k offered bh)
    (htrue : ∀ r ∈ offered, r.2 ≠ -1) (hbetter : ∀ t ∈ trueContents bh k, C.cmp C.neutral t.1) :
    (trueContents bh k).card = min k (offered.countP fun r => C.cmp C.neutral r.1) := by
  obtain ⟨out, hsum, hout⟩ := h.trueContents_add htrue
  have hcount := congrArg (Multiset.countP fun r => C.cmp C.neutral r.1) hsum
  rw [Multiset.countP_add, Multiset.coe_countP, Multiset.countP_eq_card.mpr hbetter] at hcount
  simp only [Bool.decide_eq_true] at hcount
  rcases (card_trueContents_le bh k).eq_or_lt with hfull | hroom
  · omega
  · -- a neutral element is left, so nothing that is better was left out
    obtain ⟨t, ht, hneutral⟩ : ∃ t ∈ contents bh k, t.2 = -1 := by
      by_contra hnone
      have hself : trueContents bh k = contents bh k :=
        Multiset.filter_eq_self.mpr fun t ht heq => hnone ⟨t, ht, heq⟩
      rw [hself, card_contents] at hroom
      omega
    have hpad : t.1 = C.neutral := by
      obtain ⟨rest, hall, -⟩ := h.best
      have hmem := hall ▸ mem_add.mpr (.inl ht)
      rcases mem_add.mp hmem with hpad | hoffered
      · rw [Multiset.eq_of_mem_replicate hpad]
      · exact absurd hneutral (htrue t (mem_coe.mp hoffered))
    have hzero : out.countP (fun r => C.cmp C.neutral r.1) = 0 :=
      Multiset.countP_eq_zero.mpr fun r hr => hpad ▸ hout r hr t ht
    omega

variable (hworst : ∀ d, ¬ C.cmp d C.neutral)

include hworst

lemma offer_better (hk : 1 ≤ k) (hheap : IsHeap C.above bh k)
    (h : ∀ t ∈ trueContents bh k, C.cmp C.neutral t.1) (r : F × ℤ) :
    ∀ t ∈ trueContents (offer C k bh r) k, C.cmp C.neutral t.1 := by
  unfold offer
  split_ifs with hbetter
  · intro t ht
    obtain ⟨hmem, htrue⟩ := Multiset.mem_filter.mp ht
    have hmem' : t ∈ (r.1, r.2) ::ₘ contents bh k := by
      rw [← contents_heapReplaceTop hk hheap r.1 r.2]
      exact Multiset.mem_cons_of_mem hmem
    rcases Multiset.mem_cons.mp hmem' with rfl | hold
    · by_contra hnot
      exact C.cmp_strictWeak.negTrans (hworst (bh 1).1) hnot hbetter
    · exact h t (Multiset.mem_filter.mpr ⟨hold, htrue⟩)
  · exact h

lemma foldl_offer_better (hk : 1 ≤ k) {all : Multiset (F × ℤ)} (hkeeps : Keeps C k bh all)
    (h : ∀ t ∈ trueContents bh k, C.cmp C.neutral t.1) (l : List (F × ℤ)) :
    ∀ t ∈ trueContents (l.foldl (offer C k) bh) k, C.cmp C.neutral t.1 := by
  induction l generalizing bh all with
  | nil => exact h
  | cons r l ih => exact ih (hkeeps.foldl_offer hk [r]) (offer_better hworst hk hkeeps.isHeap h r)

/-- **The sorted heap**: of the elements that were offered, as many as there is room for of those
that are better than the neutral one. -/
theorem heapReorder_of_offered [Zero F] (hk : 1 ≤ k)
    (htrue : ∀ r ∈ offered, r.2 ≠ -1) : ∃ top : List (F × ℤ),
      heapReorder C k (offered.foldl (offer C k) (emptyHeap C k))
        = top ++ List.replicate (k - top.length) (C.neutral, -1)
      ∧ (↑top : Multiset (F × ℤ)) ≤ ↑offered
      ∧ (∀ r ∈ top, C.cmp C.neutral r.1)
      ∧ top.length = min k (offered.countP fun r => C.cmp C.neutral r.1) := by
  have hempty : ∀ t ∈ trueContents (emptyHeap C k) k, C.cmp C.neutral t.1 := by
    intro t ht
    rw [trueContents, contents_emptyHeap] at ht
    obtain ⟨hpad, hne⟩ := Multiset.mem_filter.mp ht
    rw [Multiset.eq_of_mem_replicate hpad] at hne
    exact absurd rfl hne
  have hkeeps : OfferedTo C k offered (offered.foldl (offer C k) (emptyHeap C k)) :=
    (keeps_emptyHeap C k).foldl_offer hk offered
  have hbetter := foldl_offer_better hworst hk (keeps_emptyHeap C k) hempty offered
  have hcoe := coe_trueElements_drain hkeeps.isHeap
  refine ⟨_, by rw [heapReorder_eq, length_reverse], ?_, fun r hr => ?_, ?_⟩
  · obtain ⟨out, hsum, -⟩ := hkeeps.trueContents_add htrue
    rw [Multiset.coe_reverse, hcoe, ← hsum]
    exact le_add_right _ _
  · apply hbetter
    rw [← hcoe]
    exact mem_coe.mpr (mem_reverse.mp hr)
  · rw [length_reverse, ← coe_card, hcoe]
    exact hkeeps.card_trueContents htrue hbetter

end Offered

/-! ### The probes of a search -/

namespace IndexIVF

variable {Q V F : Type} [LinearOrder F] [BoundedOrder F] {ix : IndexIVF Q V F} {k : ℕ}

lemma not_cmp_neutral (ix : IndexIVF Q V F) (d : F) : ¬ ix.cmp.cmp d ix.cmp.neutral := by
  unfold cmp
  cases ix.isIp with
  | false => simp [CMax, Cmp.cmp]
  | true => simp [CMin, Cmp.cmp]

lemma cmp_neutral_iff (ix : IndexIVF Q V F) :
    ix.cmp.cmp ix.cmp.neutral d ↔ d ≠ ix.cmp.neutral := by
  unfold cmp
  cases ix.isIp with
  | false => simp [CMax, Cmp.cmp, lt_top_iff_ne_top]
  | true => simp [CMin, Cmp.cmp, bot_lt_iff_ne_bot]

/-- How many of `n` scanned entries the scanner counts. -/
def counted (ix : IndexIVF Q V F) (n : ℕ) : ℕ :=
  match ix.scanner with
  | .ivfFlat => n
  | .ivfSQ => 0

omit [LinearOrder F] [BoundedOrder F] in
lemma counted_add (ix : IndexIVF Q V F) (m n : ℕ) :
    ix.counted (m + n) = ix.counted m + ix.counted n := by
  unfold counted
  cases ix.scanner <;> rfl

omit [LinearOrder F] [BoundedOrder F] in
lemma counted_le (ix : IndexIVF Q V F) (n : ℕ) : ix.counted n ≤ n := by
  unfold counted
  cases ix.scanner <;> simp

lemma foldl_applyEntry (ix : IndexIVF Q V F) (k : ℕ) (dis : V → F) (es : List (Entry V))
    (cnt : ℕ) (heap : ℕ → F × ℤ) :
    es.foldl (ix.applyEntry k dis) (cnt, heap) = (cnt + ix.counted es.length,
      (es.map fun e => (dis e.code, (e.id : ℤ))).foldl (offer ix.cmp k) heap) := by
  induction es generalizing cnt heap with
  | nil =>
    unfold counted
    cases ix.scanner <;> rfl
  | cons e es ih =>
    have hstep : ix.applyEntry k dis (cnt, heap) e
        = (cnt + ix.counted 1, offer ix.cmp k heap (dis e.code, (e.id : ℤ))) := by
      unfold applyEntry counted offer
      cases ix.scanner <;> rfl
    rw [foldl_cons, hstep, ih, length_cons, add_comm es.length, counted_add, add_assoc]
    rfl

def heapElem (r : DistId F) : F × ℤ := (r.val, r.id)

/-- The probes that a search visits: the shortest beginning with which the codes that the scanner
counts reach the bound, or all of them. -/
def visited (ix : IndexIVF Q V F) (cs : ℕ → List (Entry V)) (sel : ℕ → Bool) (x : Q)
    (bound : ℤ) (probes : List (ℤ × F)) : List (ℤ × F) :=
  (probes.inits.find? fun done =>
    bound ≤ ix.counted (done.flatMap (ix.found cs sel x)).length).getD probes

section Visited

variable {cs : ℕ → List (Entry V)} {sel : ℕ → Bool} {x : Q}

omit [LinearOrder F] [BoundedOrder F] in
lemma visited_isPrefix (bound : ℤ) (probes : List (ℤ × F)) :
    ix.visited cs sel x bound probes <+: probes := by
  rw [visited]
  cases hfind : probes.inits.find? fun done =>
      bound ≤ ix.counted (done.flatMap (ix.found cs sel x)).length with
  | none => exact prefix_rfl
  | some done => exact (mem_inits _ _).mp (mem_of_find?_eq_some hfind)

omit [LinearOrder F] [BoundedOrder F] in
lemma visited_of_nonpos (h : bound ≤ 0) (probes : List (ℤ × F)) :
    ix.visited cs sel x bound probes = [] := by
  have hzero : bound ≤ (ix.counted 0 : ℤ) := by omega
  cases probes with
  | nil => simp [visited, hzero]
  | cons p probes => simp [visited, hzero]

omit [LinearOrder F] [BoundedOrder F] in
lemma visited_cons (h : 0 < bound) (p : ℤ × F) (probes : List (ℤ × F)) :
    ix.visited cs sel x bound (p :: probes)
      = p :: ix.visited cs sel x
        (bound - ix.counted (ix.found cs sel x p).length) probes := by
  have hzero : ¬ bound ≤ (ix.counted 0 : ℤ) := by
    have := ix.counted_le 0
    omega
  have hnext : (fun done => decide (bound
        ≤ ix.counted (done.flatMap (ix.found cs sel x)).length)) ∘ (p :: ·)
      = fun done => decide (bound - ix.counted (ix.found cs sel x p).length
        ≤ ix.counted (done.flatMap (ix.found cs sel x)).length) := by
    funext done
    rw [Function.comp, flatMap_cons, length_append, counted_add, decide_eq_decide]
    push_cast
    omega
  rw [visited, inits_cons, find?_cons_of_neg (by simpa using hzero), find?_map, hnext]
  exact Option.getD_map (p :: ·) _ _

end Visited

section Probes

variable {lists : InvertedLists V} {cs : ℕ → List (Entry V)} {c : ℕ → ℕ}
  {sel : ℕ → Bool}
  (hlists : ∀ li, SegmentsOf lists li (c li) (cs li)) (x : Q) (cap : ℤ)

include hlists

lemma scanOneList_found (hlt : li < ix.nlist) (coarseDis : F) (heap : ℕ → F × ℤ) :
    ix.scanOneList lists x sel k li coarseDis heap
      = .ok (ix.counted (ix.found cs sel x (li, coarseDis)).length,
        ((ix.found cs sel x (li, coarseDis)).map heapElem).foldl
          (offer ix.cmp k) heap) := by
  rw [scanOneList_eq (hlists li) hlt, foldl_applyEntry, zero_add, found, length_map, map_map]
  rfl

/-- **The probes** with `ensure_topk_full`: they offer the entries of the visited lists to the
heap. -/
theorem probeLoop_eq (probes : List (ℤ × F)) (heap : ℕ → F × ℤ) {nscan : ℕ}
    (hprobes : ∀ p ∈ probes, ∃ li : ℕ, p.1 = li ∧ li < ix.nlist) (hnot : (nscan : ℤ) < max cap k) :
    ix.probeLoop lists x sel k cap true probes nscan heap
      = .ok ((((ix.visited cs sel x (max cap k - nscan) probes).flatMap
        (ix.found cs sel x)).map heapElem).foldl (offer ix.cmp k) heap) := by
  induction probes generalizing heap nscan with
  | nil =>
    rw [prefix_nil.mp (visited_isPrefix _ [])]
    rfl
  | cons p probes ih =>
    obtain ⟨⟨li, hkey, hlt⟩, hrest⟩ := forall_mem_cons.mp hprobes
    obtain ⟨key, coarseDis⟩ := p
    obtain rfl : key = li := hkey
    rw [probeLoop, scanOneList_found hlists x hlt, ok_bind, visited_cons (by omega)]
    set entries := ix.found cs sel x (li, coarseDis) with hentries
    dsimp only
    split_ifs with hstop
    · have henough := hstop.2.resolve_left (by simp)
      rw [visited_of_nonpos (by omega), flatMap_singleton]
      rfl
    · have hgo : ((nscan + ix.counted entries.length : ℕ) : ℤ) < max cap k := by
        by_contra hge
        exact hstop ⟨by omega, .inr (by omega)⟩
      have hnext := ih ((entries.map heapElem).foldl (offer ix.cmp k) heap) hrest hgo
      rw [flatMap_cons, map_append, foldl_append, ← hentries, sub_sub, ← Nat.cast_add, ← hnext]

/-- The probes go on behind `done` unless what was counted reaches both bounds. -/
lemma probeLoop_append {done : List (ℤ × F)}
    (hdone : ∀ p ∈ done, ∃ li : ℕ, p.1 = li ∧ li < ix.nlist) (rest : List (ℤ × F))
    {nscan n : ℕ} (hn : n = nscan
      + ix.counted (done.flatMap (ix.found cs sel x)).length)
    (hnot : ¬ (cap ≤ nscan ∧ (k : ℤ) ≤ nscan)) (heap : ℕ → F × ℤ) :
    ix.probeLoop lists x sel k cap true (done ++ rest) nscan heap
      = if cap ≤ n ∧ (k : ℤ) ≤ n then
          ix.probeLoop lists x sel k cap true done nscan heap
        else ix.probeLoop lists x sel k cap true done nscan heap >>=
          ix.probeLoop lists x sel k cap true rest n := by
  induction done generalizing nscan heap with
  | nil =>
    have hzero : ix.counted 0 ≤ 0 := ix.counted_le 0
    obtain rfl : n = nscan := by
      rw [hn, flatMap_nil, length_nil]
      omega
    rw [if_neg hnot]
    rfl
  | cons p done ih =>
    obtain ⟨⟨li, hkey, hlt⟩, hrest⟩ := forall_mem_cons.mp hdone
    obtain ⟨key, coarseDis⟩ := p
    obtain rfl : key = li := hkey
    rw [flatMap_cons, length_append, counted_add] at hn
    rw [cons_append, probeLoop, probeLoop, scanOneList_found hlists x hlt, ok_bind, ok_bind]
    set scanned := ix.counted (ix.found cs sel x (li, coarseDis)).length
    dsimp only
    by_cases hstop : cap ≤ (nscan : ℤ) + scanned ∧ (!true ∨ (k : ℤ) ≤ (nscan : ℤ) + scanned)
    · have hlast := hstop.2.resolve_left (by simp)
      rw [if_pos hstop, if_pos hstop, if_pos ⟨by omega, by omega⟩]
    · rw [if_neg hstop, if_neg hstop]
      exact @ih hrest (nscan + scanned) (by omega) (fun h => hstop ⟨h.1, .inr h.2⟩) _

/-- **Where the probes end**: when the codes that pass the filter reach `max_codes` and `k`, no
further list is visited exactly if the scanner counts them. -/
theorem probeLoop_stops_iff {done : List (ℤ × F)}
    (hdone : ∀ p ∈ done, ∃ li : ℕ, p.1 = li ∧ li < ix.nlist) (hmax : 0 < cap)
    (hcodes : cap ≤ (done.flatMap (ix.found cs sel x)).length)
    (hk : k ≤ (done.flatMap (ix.found cs sel x)).length) (heap : ℕ → F × ℤ) :
    (∀ rest, ix.probeLoop lists x sel k cap true (done ++ rest) 0 heap
        = ix.probeLoop lists x sel k cap true done 0 heap)
      ↔ ix.scanner = .ivfFlat := by
  have hn : ix.counted (done.flatMap (ix.found cs sel x)).length = 0 + _ :=
    (Nat.zero_add _).symm
  have happend := fun rest => probeLoop_append hlists x cap hdone rest hn
    (show ¬ (cap ≤ ((0 : ℕ) : ℤ) ∧ (k : ℤ) ≤ ((0 : ℕ) : ℤ)) by omega) heap
  cases hscanner : ix.scanner with
  | ivfFlat =>
    refine iff_of_true (fun rest => (happend rest).trans (if_pos ?_)) rfl
    rw [counted, hscanner]
    exact ⟨hcodes, by exact_mod_cast hk⟩
  | ivfSQ =>
    refine iff_of_false (fun hall => ?_) nofun
    have hzero : ix.counted (done.flatMap (ix.found cs sel x)).length = 0 := by
      rw [counted, hscanner]
    obtain ⟨after, hloop⟩ : ∃ after,
        ix.probeLoop lists x sel k cap true done (0 : ℕ) heap = .ok after :=
      ⟨_, probeLoop_eq hlists x cap done heap hdone (by omega)⟩
    -- a list that does not exist is visited behind `done`
    have hnext := hloop.symm.trans ((hall [(ix.nlist, (heap 0).1)]).symm.trans (happend _))
    rw [hzero, if_neg (by omega), hloop, ok_bind, probeLoop, scanOneList, if_neg (by omega),
      if_pos le_rfl] at hnext
    cases hnext

end Probes

def twoListIndex (scanner : ScannerKind) : IndexIVF Unit Bool Bool :=
  ⟨2, 2, 2, true, scanner, fun _ _ => [], fun _ _ _ code => code⟩

def twoLists (li : ℕ) : List (Entry Bool) := [⟨li, li = 1⟩]

theorem probeLoop_stops_twoLists :
    (twoListIndex .ivfFlat).probeLoop (arrayInvertedLists twoLists) () (fun _ => true) 1 1 true
        [(0, false), (1, false)] 0 (fun _ => (false, -1))
      = (twoListIndex .ivfFlat).probeLoop (arrayInvertedLists twoLists) () (fun _ => true) 1 1 true
        [(0, false)] 0 fun _ => (false, -1) :=
  (probeLoop_stops_iff (segmentsOf_array twoLists) () 1
    (fun _ hp => ⟨0, congrArg Prod.fst (mem_singleton.mp hp), by decide⟩) (by decide)
    (by decide) (by decide) _).mpr rfl [(1, false)]

/-- One code is enough, and the scanner of IVF_SQ goes on to the second list and takes its code. -/
theorem probeLoop_goesOn_twoLists :
    ((twoListIndex .ivfSQ).probeLoop (arrayInvertedLists twoLists) () (fun _ => true) 1 1 true
      [(0, false), (1, false)] 0 fun _ => (false, -1)).toOption.map (· 1) = some (true, 1) := by
  decide

omit [LinearOrder F] [BoundedOrder F] in
lemma CoversLists.exists_listNo {nlist : ℕ} {coarse : List (ℤ × F)}
    (h : CoversLists nlist coarse) {p : ℤ × F} (hp : p ∈ coarse) :
    ∃ li : ℕ, p.1 = li ∧ li < nlist := by
  obtain ⟨li, hlist, heq⟩ := mem_map.mp (h.mem_iff.mp (mem_map_of_mem hp))
  exact ⟨li, heq.symm, mem_range.mp hlist⟩

/-- `max_codes` is read as a signed number, and 0 means that there is no limit. -/
def codesLimit (cap : ℕ) : ℤ :=
  if wrapInt 64 cap = 0 then 2 ^ 63 - 1 else wrapInt 64 cap

/-- What a search for `k` results scans. -/
def scanned (ix : IndexIVF Q V F) (cs : ℕ → List (Entry V)) (sel : ℕ → Bool) (x : Q)
    (cap k : ℕ) : List (DistId F) :=
  (ix.visited cs sel x (max (codesLimit cap) k)
    (ix.quantizer x ix.nlist)).flatMap (ix.found cs sel x)

omit [LinearOrder F] [BoundedOrder F] in
lemma scanned_sublist (ix : IndexIVF Q V F) (cs : ℕ → List (Entry V)) (sel : ℕ → Bool)
    (x : Q) (cap k : ℕ) : ix.scanned cs sel x cap k
      <+ (ix.quantizer x ix.nlist).flatMap (ix.found cs sel x) :=
  (visited_isPrefix _ _).sublist.flatMap _

lemma search_ensureTopkFull [Zero F] {storage : ListStorage V} {cs : ℕ → List (Entry V)}
    (hholds : storage.Holds cs)
    (hcovers : CoversLists ix.nlist (ix.quantizer x ix.nlist)) (hnlist : 0 < ix.nlist)
    (hk : 1 ≤ k) (cap : ℕ) (sel : ℕ → Bool) :
    ∃ top : List (F × ℤ),
      ix.search storage.invertedLists x k ⟨ix.nlist, cap, true, sel⟩
        = .ok (top ++ List.replicate (k - top.length) (ix.cmp.neutral, -1))
      ∧ (↑top : Multiset (F × ℤ)) ≤ ↑((ix.scanned cs sel x cap k).map heapElem)
      ∧ (∀ r ∈ top, r.2 ≠ -1)
      ∧ top.length = min k ((ix.scanned cs sel x cap k).countP
        (·.val ≠ ix.cmp.neutral)) := by
  have hloop : ix.probeLoop storage.invertedLists x sel k (codesLimit cap) true
      (ix.quantizer x ix.nlist) (0 : ℕ) (emptyHeap ix.cmp k) = .ok
        (((ix.scanned cs sel x cap k).map heapElem).foldl (offer ix.cmp k)
          (emptyHeap ix.cmp k)) := by
    refine (probeLoop_eq hholds.segmentsOf x _ _ _ (fun p hp => hcovers.exists_listNo hp)
      (by omega)).trans ?_
    rw [Nat.cast_zero, sub_zero, scanned]
  set offered := (ix.scanned cs sel x cap k).map heapElem with hoffered
  have htrue : ∀ r ∈ offered, r.2 ≠ -1 := by
    intro r hr
    obtain ⟨d, hd, rfl⟩ := mem_map.mp hr
    obtain ⟨p, -, hp⟩ := mem_flatMap.mp hd
    obtain ⟨e, -, rfl⟩ := mem_map.mp hp
    show (e.id : ℤ) ≠ -1
    omega
  obtain ⟨top, hreorder, hle, -, hlen⟩ := heapReorder_of_offered ix.not_cmp_neutral hk htrue
  refine ⟨top, ?_, hle, fun r hr => ?_, ?_⟩
  · unfold search
    rw [min_self, if_neg (by omega), if_neg (by omega), heapHeapify_empty, ← hreorder]
    show (probeLoop _ _ _ _ _ (codesLimit cap) _ _ ((0 : ℕ) : ℤ) _ >>= _) = _
    rw [hloop]
    rfl
  · exact htrue r (Multiset.mem_coe.mp (Multiset.mem_of_le hle (Multiset.mem_coe.mpr hr)))
  · rw [hlen, hoffered, countP_map]
    congr 2
    funext d
    rw [Function.comp, Bool.eq_iff_iff, decide_eq_true_eq]
    exact ix.cmp_neutral_iff

end IndexIVF

end Rvanns.Faiss
