import Rvanns.Knowhere.EmbListExits

/-!
# When an embedding-list search reports its failures
-/

namespace Rvanns.Knowhere.EmbListSearch

open List

variable {D : Type} {round : ℚ → ℚ} {r : Request} {c : Callees D}

/-- The lists that a search looks at, with their query list. -/
def found (c : Callees D) (hits : ℕ → List ℤ) (nqs : List ℕ) : List ((ℕ × ℕ) × ℕ) :=
  nqs.zipIdx.flatMap fun q => match c.embListOffset with
    | none => []
    | some offset => (elIdsSet c offset (hits q.2)).map (q, ·)

/-- What a search can meet: stage 1 fails, the aggregation of the metric is not supported, or the
distances of a list that stage 1 has found cannot be computed. -/
def Fails (r : Request) (c : Callees D) : Prop :=
  c.search = none ∨ r.metricType.map Prod.fst ≠ some .maxSim
    ∨ ∃ hits ∈ c.search, ∃ p ∈ found c hits (r.nqs.getD []),
      c.calcDistByIds p.1.2 p.2 = none

/-- The search is left with an error result after a failure, and never by an exception or by what is
not defined. -/
structure ReportsFailures (round : ℚ → ℚ) (r : Request) (c : Callees D) : Prop where
  not_thrown : ∀ what, exitOfSearch round r c ≠ some (.thrown what)
  not_undefined : exitOfSearch round r c ≠ some .undefined
  err_of_fails : Fails r c → ∃ what, exitOfSearch round r c = some (.err what)

lemma reportsFailures_iff_exit : ReportsFailures round r c
    ↔ (∃ what, exitOfSearch round r c = some (.err what))
      ∨ exitOfSearch round r c = none ∧ ¬ Fails r c := by
  constructor
  · rintro ⟨hthrown, hundefined, herr⟩
    cases hexit : exitOfSearch round r c with
    | none =>
      refine .inr ⟨rfl, fun hfails => ?_⟩
      obtain ⟨what, hwhat⟩ := herr hfails
      rw [hexit] at hwhat
      cases hwhat
    | some exit =>
      cases exit with
      | err what => exact .inl ⟨what, rfl⟩
      | thrown what => exact absurd hexit (hthrown what)
      | undefined => exact absurd hexit hundefined
  · rintro (⟨what, hexit⟩ | ⟨hexit, hfails⟩)
    · exact ⟨by simp [hexit], by simp [hexit], fun _ => ⟨what, hexit⟩⟩
    · exact ⟨by simp [hexit], by simp [hexit], fun h => absurd h hfails⟩

lemma not_fails {hits : ℕ → List ℤ} (hmetric : r.metricType = some (.maxSim, sub))
    (hsearch : c.search = some hits) (hdist : ∀ p ∈ found c hits (r.nqs.getD []),
      c.calcDistByIds p.1.2 p.2 ≠ none) : ¬ Fails r c := by
  rintro (h | h | ⟨ids, hids, p, hp, hnone⟩)
  · rw [hsearch] at h
    cases h
  · rw [hmetric] at h
    exact h rfl
  · obtain rfl := Option.mem_unique hids hsearch
    exact hdist p hp hnone

/-! ### The loops -/

section Loops

variable {hits : ℕ → List ℤ} {aggFunc : Option (AggFunc D)} {larger : Bool}
  {nqs : List ℕ} {offset : List ℕ}

lemma loops_of_null (h : c.embListOffset = none) :
    nqs.zipIdx.findSome? (exitOfList c hits aggFunc larger)
      = if ∀ i < nqs.length, ∀ id ∈ hits i, id < 0 then none else some .undefined := by
  have hexit : exitOfList c hits aggFunc larger
      = fun q => if (hits q.2).all (· < 0) then none else some .undefined := by
    funext q
    rw [exitOfList, h]
  rw [hexit]
  split_ifs with hall
  · rw [findSome?_eq_none_iff]
    intro q hq
    have hlt := hall q.2 (snd_lt_of_mem_zipIdx hq)
    rw [if_pos (by simpa using hlt)]
  · simp only [not_forall] at hall
    obtain ⟨i, hi, id, hid, hnonneg⟩ := hall
    have hmem : (nqs[i], i) ∈ nqs.zipIdx := by
      rw [mem_zipIdx_iff_getElem?]
      exact getElem?_eq_getElem hi
    cases hloop : nqs.zipIdx.findSome? fun q =>
        if (hits q.2).all (· < 0) then none else some Exit.undefined with
    | none =>
      have hnone := findSome?_eq_none_iff.mp hloop _ hmem
      rw [if_neg (by simpa using ⟨id, hid, not_lt.mp hnonneg⟩)] at hnone
      cases hnone
    | some exit =>
      obtain ⟨q, -, hq⟩ := exists_of_findSome?_eq_some hloop
      split_ifs at hq
      exact hq.symm

lemma loops_eq (h : c.embListOffset = some offset) :
    nqs.zipIdx.findSome? (exitOfList c hits aggFunc larger)
      = (found c hits nqs).findSome? fun p =>
        exitOfScore c offset aggFunc larger p.1 p.2 := by
  have hexit : exitOfList c hits aggFunc larger
      = fun q => (elIdsSet c offset (hits q.2)).findSome?
        (exitOfScore c offset aggFunc larger q) := by
    funext q
    rw [exitOfList, h]
  rw [hexit, found, h]
  induction nqs.zipIdx with
  | nil => rfl
  | cons q queries ih =>
    rw [findSome?_cons, flatMap_cons, findSome?_append, findSome?_map, ← ih]
    cases hq : (elIdsSet c offset (hits q.2)).findSome?
        (exitOfScore c offset aggFunc larger q) with
    | none => exact (congrArg (Option.or · _) hq).symm
    | some exit => exact (congrArg (Option.or · _) hq).symm

lemma exitOfScore_maxSim {f : AggFunc D}
    (h : exitOfScore c offset (some f) larger q el = some exit) :
    ∃ what, exit = .err what := by
  unfold exitOfScore at h
  split at h
  · exact ⟨_, (Option.some.inj h).symm⟩
  · exact ⟨_, (Option.some.inj h).symm⟩
  · next heq => cases heq
  · split_ifs at h
    exact ⟨_, (Option.some.inj h).symm⟩

lemma exitOfScore_of_calcDist (h : c.calcDistByIds q.2 el = none) :
    ∃ what, exitOfScore c offset aggFunc larger q el = some (.err what) := by
  unfold exitOfScore
  rw [h]
  cases elLen offset el with
  | none => exact ⟨_, rfl⟩
  | some n => exact ⟨_, rfl⟩

lemma exitOfScore_dtw : exitOfScore c offset none larger q el
    = some (if elLen offset el = none then .err "invalid emb_list id"
      else if c.calcDistByIds q.2 el = none then .err "bf search error"
      else .thrown "bad_function_call") := by
  unfold exitOfScore
  cases elLen offset el with
  | none => rfl
  | some n => cases c.calcDistByIds q.2 el <;> rfl

lemma loops_dtw (h : c.embListOffset = some offset) :
    nqs.zipIdx.findSome? (exitOfList c hits none larger)
      = (found c hits nqs).head?.map fun p =>
        if elLen offset p.2 = none then .err "invalid emb_list id"
        else if c.calcDistByIds p.1.2 p.2 = none then .err "bf search error"
        else .thrown "bad_function_call" := by
  rw [loops_eq h]
  cases found c hits nqs with
  | nil => rfl
  | cons p rest => rw [findSome?_cons, exitOfScore_dtw, head?_cons, Option.map_some]

lemma loops_maxSim (f : AggFunc D) (h : c.embListOffset = some offset) :
    nqs.zipIdx.findSome? (exitOfList c hits (some f) larger) = none
      ∨ ∃ what, nqs.zipIdx.findSome? (exitOfList c hits (some f) larger)
        = some (.err what) := by
  rw [loops_eq h]
  cases hexit : (found c hits nqs).findSome? fun p =>
      exitOfScore c offset (some f) larger p.1 p.2 with
  | none => exact .inl rfl
  | some exit =>
    obtain ⟨p, -, hp⟩ := exists_of_findSome?_eq_some hexit
    obtain ⟨what, rfl⟩ := exitOfScore_maxSim hp
    exact .inr ⟨what, rfl⟩

lemma loops_ne_none (h : c.embListOffset = some offset) (hp : p ∈ found c hits nqs)
    (hdist : c.calcDistByIds p.1.2 p.2 = none) :
    nqs.zipIdx.findSome? (exitOfList c hits aggFunc larger) ≠ none := by
  rw [loops_eq h]
  intro hnone
  obtain ⟨what, hwhat⟩ := exitOfScore_of_calcDist hdist
  rw [findSome?_eq_none_iff.mp hnone p hp] at hwhat
  cases hwhat

lemma found_of_null (h : c.embListOffset = none) : found c hits nqs = [] := by
  rw [found, h]
  exact flatMap_eq_nil_iff.mpr fun _ _ => rfl

end Loops

/-! ### Requests -/

lemma reportsFailures_maxSim {hits : ℕ → List ℤ} (hmetric : r.metricType = some (.maxSim, sub))
    (hsearch : c.search = some hits)
    (hexit : exitOfSearch round r c = (r.nqs.getD []).zipIdx.findSome?
      (exitOfList c hits (some c.getSumMaxSim) larger)) :
    ReportsFailures round r c ↔ c.embListOffset ≠ none
      ∨ ∀ i < (r.nqs.getD []).length, ∀ id ∈ hits i, id < 0 := by
  rw [reportsFailures_iff_exit, hexit]
  cases hoffset : c.embListOffset with
  | none =>
    have hok : ¬ Fails r c := not_fails hmetric hsearch fun p hp => by
      rw [found_of_null hoffset] at hp
      cases hp
    rw [loops_of_null hoffset]
    split_ifs with hnone
    · exact iff_of_true (.inr ⟨rfl, hok⟩) (.inr hnone)
    · simp [hnone]
  | some offset =>
    refine iff_of_true ?_ (.inl nofun)
    rcases loops_maxSim c.getSumMaxSim hoffset with hnone | herr
    · exact .inr ⟨hnone, not_fails hmetric hsearch fun p hp hdist =>
        loops_ne_none hoffset hp hdist hnone⟩
    · exact .inl herr

lemma reportsFailures_dtw {hits : ℕ → List ℤ} (hmetric : r.metricType = some (.dtw, sub))
    (hexit : exitOfSearch round r c = (r.nqs.getD []).zipIdx.findSome?
      (exitOfList c hits none larger)) :
    ReportsFailures round r c ↔ ∃ offset ∈ c.embListOffset,
      ∃ p ∈ (found c hits (r.nqs.getD [])).head?,
        elLen offset p.2 = none ∨ c.calcDistByIds p.1.2 p.2 = none := by
  have hfails : Fails r c := .inr (.inl (by rw [hmetric]; nofun))
  rw [reportsFailures_iff_exit, hexit]
  cases hoffset : c.embListOffset with
  | none =>
    rw [loops_of_null hoffset]
    split_ifs <;> simp [hfails]
  | some offset =>
    rw [loops_dtw hoffset]
    cases (found c hits (r.nqs.getD [])).head? with
    | none => simp [hfails]
    | some p =>
      rw [Option.map_some]
      split_ifs with hlen hdist
      · simp [hlen]
      · simp [hdist]
      · simp [hlen, hdist]

/-- **Failures are reported** exactly if the request is refused before stage 1; or the number of
vectors that stage 1 is to find fits, stage 1 succeeds, `GetQueryCodeSize` does not throw, and

* it fails, or
* the lists are compared by MAX_SIM and there are offsets, or no vectors are found, or
* the metric is of the DTW family and the first list that is looked at has no valid id, or its
  distances cannot be computed. -/
theorem reportsFailures_iff (round : ℚ → ℚ) (r : Request) (c : Callees D) :
    ReportsFailures round r c ↔ r.nqs = none ∨ r.metricType = none
      ∨ vecTopk round r ≠ none ∧ ∃ hits ∈ c.search, ∃ size, c.getQueryCodeSize = .ok size
        ∧ (size = none
          ∨ r.metricType.map Prod.fst = some .maxSim ∧ (c.embListOffset ≠ none
            ∨ ∀ i < (r.nqs.getD []).length, ∀ id ∈ hits i, id < 0)
          ∨ r.metricType.map Prod.fst = some .dtw ∧ ∃ offset ∈ c.embListOffset,
            ∃ p ∈ (found c hits (r.nqs.getD [])).head?,
              elLen offset p.2 = none ∨ c.calcDistByIds p.1.2 p.2 = none) := by
  cases hnqs : r.nqs with
  | none => simp [reportsFailures_iff_exit, exitOfSearch, hnqs]
  | some nqs =>
  cases hmetric : r.metricType with
  | none => simp [reportsFailures_iff_exit, exitOfSearch, hnqs, hmetric]
  | some metric =>
  obtain ⟨elMetric, sub⟩ := metric
  obtain ⟨aggFunc, hagg⟩ : ∃ f, getEmbListAggFunc c elMetric = some f := by
    cases elMetric <;> exact ⟨_, rfl⟩
  cases htopk : vecTopk round r with
  | none => simp [reportsFailures_iff_exit, exitOfSearch, hnqs, hmetric, hagg, htopk]
  | some topk =>
  cases hsearch : c.search with
  | none => simp [reportsFailures_iff_exit, exitOfSearch, hnqs, hmetric, hagg, htopk, hsearch]
  | some hits =>
  rcases hsize : c.getQueryCodeSize with what | _ | size
  · simp [reportsFailures_iff_exit, exitOfSearch, hnqs, hmetric, hagg, htopk, hsearch, hsize]
  · simp [reportsFailures_iff_exit, exitOfSearch, hnqs, hmetric, hagg, htopk, hsearch, hsize]
  · have hloops : exitOfSearch round r c = (r.nqs.getD []).zipIdx.findSome? (exitOfList c hits
        aggFunc (sub.getD .cosine ∈ [SubMetric.cosine, .ip])) := by
      simp only [exitOfSearch, hnqs, hmetric, hagg, htopk, hsearch, hsize, Option.getD_some]
    cases elMetric with
    | maxSim =>
      cases hagg
      rw [reportsFailures_maxSim hmetric hsearch hloops, hnqs]
      simp
    | dtw =>
      cases hagg
      rw [reportsFailures_dtw hmetric hloops, hnqs]
      simp

/-- A node that finds the vector 0, in list 0, for each query list. -/
def oneVector : Callees ℤ where
  embListOffset := some [0, 1]
  search := some fun _ => [0]
  getQueryCodeSize := .ok (some 4)
  traversed := List.dedup
  mem_traversed _ _ := List.mem_dedup
  calcDistByIds _ _ := some [0]
  getSumMaxSim _ _ _ _ := some 0

def request (elMetric : ElMetric) : Request := ⟨some (elMetric, none), some [1], 1, 3⟩

/-- A failed stage 1, a list that is found for the metric DTW, an index without `GetQueryCodeSize`,
and a vector that is found in an index without offsets. -/
theorem exitOfSearch_thrown :
    exitOfSearch id (request .maxSim) { oneVector with search := none }
        = some (.thrown "bad_optional_access")
      ∧ exitOfSearch id (request .dtw) oneVector = some (.thrown "bad_function_call")
      ∧ exitOfSearch id (request .maxSim) { oneVector with
          getQueryCodeSize := .error "GetQueryCodeSize not supported for current index type" }
        = some (.thrown "GetQueryCodeSize not supported for current index type")
      ∧ exitOfSearch id (request .maxSim) { oneVector with embListOffset := none }
        = some .undefined := by
  have htopk : ∀ elMetric, vecTopk id (request elMetric) = some 3 := by
    intro elMetric
    have hscaled : scaledK id (request elMetric).k (request elMetric).retrievalAnnRatio = 3 := by
      norm_num [scaledK, request]
    rw [vecTopk, hscaled]
    decide +kernel
  refine ⟨?_, ?_, ?_, ?_⟩ <;>
  · rw [exitOfSearch, htopk]
    rfl

end Rvanns.Knowhere.EmbListSearch
