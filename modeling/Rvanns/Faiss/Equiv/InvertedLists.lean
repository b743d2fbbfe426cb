import Rvanns.Faiss.InvertedLists

/-!
# What inverted lists hold

A list in segments holds entries: those in its first `cur` cells.
-/

namespace Rvanns.Faiss

open Cpp List Option Function ConcurrentList

variable {V : Type}

/-! ### Adding entries -/

/-- The entries `es` fill the first cells of segments of `c` cells, and the published count is
theirs. -/
structure ConcurrentList.Holds (c : ℕ) (list : ConcurrentList V) (es : List (Entry V)) : Prop where
  segments : ChunksHold c list.segments es
  cur : list.cur = es.length

namespace ConcurrentList

variable {c : ℕ} {list : ConcurrentList V} {es : List (Entry V)}

lemma holds_empty (c : ℕ) : Holds c ({} : ConcurrentList V) [] :=
  ⟨⟨nofun, prefix_rfl⟩, rfl⟩

lemma Holds.reserve (h : Holds c list es) (hc : 0 < c) :
    Holds c (list.reserve c n) es ∧ n ≤ (list.reserve c n).segments.length * c := by
  refine ⟨⟨h.segments.append _, h.cur⟩, (chunkNum_le_iff hc).mp ?_⟩
  rw [ConcurrentList.reserve, length_append, length_replicate]
  omega

lemma Holds.store (h : Holds c list es) (entries : List (Entry V))
    (hlen : es.length = segmentId * c + first) (hfit : first + entries.length ≤ c)
    (hroom : segmentId < list.segments.length) : ∃ list',
      list.store segmentId first entries = some list' ∧ Holds c list' (es ++ entries)
      ∧ list'.segments.length = list.segments.length := by
  obtain ⟨segments, hwrite, hholds, hcount⟩ := h.segments.writeChunk hlen hfit hroom
  refine ⟨⟨segments, list.cur + entries.length⟩, ?_, ⟨hholds, ?_⟩, hcount⟩
  · rw [ConcurrentList.store, hwrite]
    rfl
  · rw [length_append, h.cur]

/-- What one `add_entries` call on `list` publishes, one state after the other: each holds what was
there before, and after the last one the list holds `all`. -/
structure States (c : ℕ) (list : ConcurrentList V) (es all : List (Entry V))
    (states : List (ConcurrentList V)) : Prop where
  between : ∀ l ∈ states, ∃ es', es <+: es' ∧ Holds c l es'
  last : Holds c (states.getLastD list) all

lemma states_nil (h : Holds c list es) : States c list es es [] := ⟨nofun, h⟩

lemma States.cons {all es' : List (Entry V)} {states : List (ConcurrentList V)}
    (h : States c list es' all states) (hlist : Holds c list es') (hes : es <+: es') :
    States c list₀ es all (list :: states) := by
  refine ⟨forall_mem_cons.mpr ⟨⟨es', hes, hlist⟩, fun l hl => ?_⟩, ?_⟩
  swap
  · rw [getLastD_cons]
    exact h.last
  obtain ⟨es'', hes'', hl⟩ := h.between l hl
  exact ⟨es'', hes.trans hes'', hl⟩

/-- The entries that do not fill a segment are stored like the others, and none are left. -/
lemma addRest_succ (hne : rest ≠ []) : addRest c (fuel + 1) list segmentId rest = (do
    let list ← list.store (segmentId + 1) 0 (rest.take c)
    let states ← addRest c fuel list (segmentId + 1) (rest.drop c)
    return list :: states) := by
  obtain ⟨e, rest, rfl⟩ := exists_cons_of_ne_nil hne
  rw [addRest.eq_def]
  dsimp only
  split_ifs with hfull
  · rfl
  · rw [take_of_length_le (by omega), drop_of_length_le (by omega)]
    simp only [addRest, some_bind]

lemma addEntries_of_ne (hne : entries ≠ []) : list.addEntries c entries = (do
    let reserved := list.reserve c (list.cur + entries.length)
    let first := list.cur % c
    let list ← reserved.store (list.cur / c) first (entries.take (c - first))
    let states ← addRest c entries.length list (reserved.cur / c) (entries.drop (c - first))
    return reserved :: list :: states) := by
  rw [addEntries, if_neg (by simpa using hne)]
  dsimp only
  split_ifs with hfit
  · rw [take_of_length_le (by omega), drop_of_length_le (by omega)]
    simp only [addRest, some_bind]
  · rfl

/-- The first segment and those behind it. -/
lemma storeRest_spec (hc : 0 < c) {fuel segmentId first : ℕ} {list : ConcurrentList V}
    {es rest : List (Entry V)} (h : Holds c list es) (hlen : es.length = segmentId * c + first)
    (hfirst : first < c) (hne : rest ≠ []) (hfuel : rest.length ≤ fuel)
    (hroom : es.length + rest.length ≤ list.segments.length * c) : ∃ list' states,
      list.store segmentId first (rest.take (c - first)) = some list'
      ∧ addRest c fuel list' segmentId (rest.drop (c - first)) = some states
      ∧ States c list es (es ++ rest) (list' :: states) := by
  induction fuel generalizing list es segmentId first rest with
  | zero => exact absurd (length_eq_zero_iff.mp (Nat.le_zero.mp hfuel)) hne
  | succ fuel ih =>
    have hpos := length_pos_iff.mpr hne
    have hsegment : segmentId < list.segments.length := by
      by_contra hge
      have hle := Nat.mul_le_mul_right c (not_lt.mp hge)
      omega
    obtain ⟨list', hstore, hholds, hcount⟩ := h.store (rest.take (c - first)) hlen
      (by rw [length_take]; omega) hsegment
    rcases eq_or_ne (rest.drop (c - first)) [] with hnil | hmore
    · have htake : rest.take (c - first) = rest := take_of_length_le (drop_eq_nil_iff.mp hnil)
      rw [htake] at hholds
      refine ⟨list', [], hstore, by rw [hnil, addRest], ?_⟩
      exact (states_nil hholds).cons hholds (prefix_append _ _)
    · have hlt : c - first < rest.length := by simpa using hmore
      have hlen' : (es ++ rest.take (c - first)).length = (segmentId + 1) * c + 0 := by
        rw [length_append, length_take, Nat.succ_mul]
        omega
      obtain ⟨list'', states, hstore', hrest, hstates⟩ := ih hholds hlen' hc hmore
        (by rw [length_drop]; omega)
        (by rw [length_append, length_take, length_drop, hcount]; omega)
      rw [append_assoc, take_append_drop] at hstates
      refine ⟨list', list'' :: states, hstore, ?_, hstates.cons hholds (prefix_append _ _)⟩
      rw [Nat.sub_zero] at hstore' hrest
      rw [addRest_succ hmore, hstore']
      simp only [some_bind, hrest]
      rfl

lemma addEntries_spec (hc : 0 < c) (h : Holds c list es) (entries : List (Entry V)) : ∃ states,
    list.addEntries c entries = some states ∧ States c list es (es ++ entries) states := by
  rcases eq_or_ne entries [] with rfl | hne
  · exact ⟨[], rfl, (append_nil es).symm ▸ states_nil h⟩
  obtain ⟨hreserved, hroom⟩ := h.reserve hc (n := list.cur + entries.length)
  have hcur := h.cur
  obtain ⟨list', states, hstore, hrest, hstates⟩ := storeRest_spec hc hreserved
    (hcur.symm.trans (Nat.div_add_mod' list.cur c).symm) (Nat.mod_lt _ hc) hne le_rfl (by omega)
  refine ⟨_, ?_, hstates.cons hreserved prefix_rfl⟩
  rw [addEntries_of_ne hne]
  dsimp only
  rw [hstore]
  simp only [some_bind]
  exact congrArg (· >>= _) hrest

end ConcurrentList

section Later

variable {c : ℕ} {ls ls' : ℕ → ConcurrentList V} {cs : ℕ → List (Entry V)}

def AddStep (c : ℕ) (ls ls' : ℕ → ConcurrentList V) : Prop :=
  ∃ li entries states, (ls li).addEntries c entries = some states ∧
    ∃ list ∈ states, ls' = update ls li list

/-- What another thread can see later, between and inside `add_entries` calls. -/
def Later (c : ℕ) : (ℕ → ConcurrentList V) → (ℕ → ConcurrentList V) → Prop :=
  Relation.ReflTransGen (AddStep c)

lemma AddStep.holds (hc : 0 < c) (h : ∀ li, (ls li).Holds c (cs li))
    (hstep : AddStep c ls ls') : ∃ content' : ℕ → List (Entry V),
      (∀ li, cs li <+: content' li)
      ∧ ∀ li, (ls' li).Holds c (content' li) := by
  obtain ⟨no, entries, states, hadd, list, hlist, rfl⟩ := hstep
  obtain ⟨states', hadd', hstates⟩ := addEntries_spec hc (h no) entries
  obtain rfl := mem_unique hadd hadd'
  obtain ⟨es', hes, hholds⟩ := hstates.between list hlist
  refine ⟨update cs no es', fun li => ?_, fun li => ?_⟩
  · by_cases heq : li = no
    · subst heq
      rwa [update_self]
    · rw [update_of_ne heq]
  · by_cases heq : li = no
    · subst heq
      rwa [update_self, update_self]
    · rw [update_of_ne heq, update_of_ne heq]
      exact h li

lemma Later.holds (hc : 0 < c) (h : ∀ li, (ls li).Holds c (cs li))
    (hlater : Later c ls ls') : ∃ content' : ℕ → List (Entry V),
      (∀ li, cs li <+: content' li)
      ∧ ∀ li, (ls' li).Holds c (content' li) := by
  induction hlater with
  | refl => exact ⟨cs, fun _ => prefix_rfl, h⟩
  | tail _ hstep ih =>
    obtain ⟨content₁, hle₁, h₁⟩ := ih
    obtain ⟨content₂, hle₂, h₂⟩ := hstep.holds hc h₁
    exact ⟨content₂, fun li => (hle₁ li).trans (hle₂ li), h₂⟩

end Later

/-! ### How a scan sees a list -/

/-- A scan of segment after segment, by the calls that a scanner makes, reads `es` in order. -/
structure SegmentsOf (ls : InvertedLists V) (li c : ℕ) (es : List (Entry V)) : Prop where
  pos : 0 < c
  listSize : ls.listSize li = es.length
  num : es ≠ [] → ls.getSegmentNum li = chunkNum c es.length
  size : ∀ i, i * c < es.length → ls.getSegmentSize li i = min c (es.length - i * c)
  offset : ∀ i, i * c < es.length → ls.getSegmentOffset li i = c * i
  entries : ∀ i j, j < c → i * c + j < es.length →
    ls.getEntries li (c * i) j = es[i * c + j]?

lemma segmentsOf_array (ls : ℕ → List (Entry V)) (li : ℕ) :
    SegmentsOf (arrayInvertedLists ls) li (max 1 (ls li).length) (ls li) := by
  have hfirst : ∀ i, i * max 1 (ls li).length < (ls li).length → i = 0 := by
    intro i hi
    by_contra hne
    have hle := Nat.mul_le_mul_right (max 1 (ls li).length) (Nat.one_le_iff_ne_zero.mpr hne)
    omega
  refine ⟨by omega, rfl, fun hne => ?_, fun i hi => ?_, fun i hi => ?_, fun i j hj hi => ?_⟩
  · have hpos := length_pos_iff.mpr hne
    rw [max_eq_right hpos, chunkNum, Nat.div_self hpos, Nat.mod_self]
    rfl
  · obtain rfl := hfirst i hi
    show (ls li).length = _
    omega
  · obtain rfl := hfirst i hi
    rfl
  · obtain rfl := hfirst i (by omega)
    show (ls li)[max 1 (ls li).length * 0 + j]? = _
    rw [mul_zero, zero_mul]

lemma segmentsOf_concurrent (hc : 0 < c) (h : (ls li).Holds c es) :
    SegmentsOf (concurrentArrayInvertedLists c ls) li c es := by
  have hcur := h.cur
  refine ⟨hc, hcur, fun _ => by rw [← hcur]; rfl, fun i hi => ?_, fun i _ => rfl,
    fun i j hj hij => ?_⟩
  · show (ls li).getSegmentSize c i = _
    unfold getSegmentSize
    rw [hcur, if_neg (by omega)]
    by_cases hnext : (i + 1) * c < es.length
    · -- another segment follows
      have hlt := (lt_chunkNum_iff hc).mpr hnext
      rw [if_pos (by omega)]
      rw [Nat.succ_mul] at hnext
      omega
    · -- the last segment, which may be full
      have hge : ¬ i + 1 < chunkNum c es.length := fun hlt => hnext ((lt_chunkNum_iff hc).mp hlt)
      rw [if_neg (by omega)]
      rw [Nat.succ_mul] at hnext
      rcases lt_or_ge (es.length - i * c) c with hpart | hfull
      · have hrest : es.length % c = es.length - i * c := by
          have hsplit : es.length = c * i + (es.length - i * c) := by
            rw [mul_comm]
            omega
          conv_lhs => rw [hsplit]
          rw [Nat.mul_add_mod, Nat.mod_eq_of_lt hpart]
        rw [if_pos (by omega)]
        omega
      · have hwhole : es.length % c = 0 := by
          have heq : es.length = c * (i + 1) := by
            rw [Nat.mul_succ, mul_comm]
            omega
          rw [heq, Nat.mul_mod_right]
        rw [hwhole, if_neg (lt_irrefl 0)]
        omega
  · obtain ⟨segment, hsegment, hcell⟩ := h.segments.getElem? hj hij
    show (ls li).getEntries c (c * i) j = _
    rw [getEntries, Nat.mul_div_cancel_left i hc, Nat.mul_mod_right, zero_add,
      hsegment]
    simp only [some_bind, hcell]
    rw [getElem?_eq_getElem hij]
    rfl

/-- `add_entries` calls one after the other, on lists that are empty at first. -/
def addAll (c : ℕ) (calls : List (ℕ × List (Entry V))) : Option (ℕ → ConcurrentList V) :=
  calls.foldlM (fun ls call => do
    let states ← (ls call.1).addEntries c call.2
    return update ls call.1 (states.getLastD (ls call.1))) fun _ => {}

def addedTo (li : ℕ) (calls : List (ℕ × List (Entry V))) : List (Entry V) :=
  calls.flatMap fun call => if call.1 = li then call.2 else []

lemma holds_addAll (hc : 0 < c) (calls : List (ℕ × List (Entry V))) :
    Returns (addAll c calls) fun ls => ∀ no, (ls no).Holds c (addedTo no calls) := by
  refine .foldlM (P := fun pre (ls : ℕ → ConcurrentList V) =>
    ∀ no, (ls no).Holds c (addedTo no pre)) calls ?_ fun _ => holds_empty c
  intro pre call _ _ ls h
  obtain ⟨states, hadd, hstates⟩ := addEntries_spec hc (h call.1) call.2
  refine .bind_eq hadd (.pure fun no => ?_)
  rw [addedTo, flatMap_append, flatMap_singleton]
  by_cases heq : no = call.1
  · subst heq
    rw [update_self, if_pos rfl]
    exact hstates.last
  · rw [update_of_ne heq, if_neg (Ne.symm heq), append_nil]
    exact h no

/-- **Lists grow at their ends only**: after any `add_entries` calls a list consists of what was
added to it, and no later publication, of this or another list, moves or changes an entry. -/
theorem addAll_segmentsOf (c : ℕ+) (calls : List (ℕ × List (Entry V))) : ∃ ls,
    addAll c calls = some ls ∧ ∀ li,
      SegmentsOf (concurrentArrayInvertedLists c ls) li c (addedTo li calls) ∧
      ∀ ls', Later c ls ls' → ∃ es, addedTo li calls <+: es ∧
        SegmentsOf (concurrentArrayInvertedLists c ls') li c es := by
  obtain ⟨ls, hrun, hholds⟩ := holds_addAll c.pos calls
  refine ⟨ls, hrun, fun li => ⟨segmentsOf_concurrent c.pos (hholds li), ?_⟩⟩
  intro ls' hlater
  obtain ⟨cs, hle, hcontent⟩ := hlater.holds c.pos hholds
  exact ⟨cs li, hle li, segmentsOf_concurrent c.pos (hcontent li)⟩

/-! ### Both implementations -/

namespace ListStorage

def Holds (storage : ListStorage V) (cs : ℕ → List (Entry V)) : Prop :=
  match storage with
  | .array ls => ls = cs
  | .concurrent segmentSize ls =>
    0 < segmentSize ∧ ∀ li, (ls li).Holds segmentSize (cs li)

def Later (storage storage' : ListStorage V) : Prop :=
  match storage, storage' with
  | .array ls, .array ls' => ls' = ls
  | .concurrent segmentSize ls, .concurrent segmentSize' ls' =>
    segmentSize' = segmentSize ∧ Faiss.Later segmentSize ls ls'
  | _, _ => False

lemma Later.refl (storage : ListStorage V) : Later storage storage := by
  cases storage with
  | array ls => rfl
  | concurrent segmentSize ls => exact ⟨rfl, .refl⟩

def chunkSize (storage : ListStorage V) (es : List (Entry V)) : ℕ :=
  match storage with
  | .array _ => max 1 es.length
  | .concurrent segmentSize _ => segmentSize

lemma Holds.later (h : storage.Holds cs) (hlater : Later storage storage') (li : ℕ) :
    ∃ es, cs li <+: es
      ∧ SegmentsOf storage'.invertedLists li (storage.chunkSize (cs li)) es := by
  cases storage with
  | array ls =>
    cases storage' with
    | array ls' =>
      obtain rfl : ls' = ls := hlater
      obtain rfl : ls' = cs := h
      exact ⟨_, prefix_rfl, segmentsOf_array ls' li⟩
    | concurrent segmentSize ls' => exact False.elim hlater
  | concurrent segmentSize ls =>
    cases storage' with
    | array ls' => exact False.elim hlater
    | concurrent segmentSize' ls' =>
      obtain ⟨rfl, hlater⟩ := hlater
      obtain ⟨content', hle, hholds⟩ := hlater.holds h.1 h.2
      exact ⟨content' li, hle li, segmentsOf_concurrent h.1 (hholds li)⟩

section

variable {storage : ListStorage V} {cs : ℕ → List (Entry V)} (h : storage.Holds cs)
  (li : ℕ)

include h

lemma Holds.segmentsOf :
    SegmentsOf storage.invertedLists li (storage.chunkSize (cs li))
      (cs li) := by
  cases storage with
  | array ls =>
    obtain rfl : ls = cs := h
    exact segmentsOf_array ls li
  | concurrent segmentSize ls => exact segmentsOf_concurrent h.1 (h.2 li)

lemma Holds.listSize : storage.invertedLists.listSize li = (cs li).length :=
  (h.segmentsOf li).listSize

end

end ListStorage

end Rvanns.Faiss
