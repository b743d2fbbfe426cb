import Rvanns.Cpp.Returns
import Rvanns.Knowhere.Config

/-!
# Which integers a config accepts

A JSON integer goes through two conversions.
-/

namespace Rvanns.Knowhere

open Cpp List Function

lemma wrapInt_64_le_iff (hlo : -2 ^ 63 ≤ z) (hhi : z < 2 ^ 64) :
    wrapInt 64 z ≤ 2 ^ 31 - 1 ↔ z < 2 ^ 31 ∨ 2 ^ 63 ≤ z := by
  rcases lt_or_ge z (2 ^ 63) with h | h
  · rw [wrapInt_64_of_fits hlo h]
    omega
  · have := wrapInt_64_neg h hhi
    omega

def Range.Contains (r : Range ℤ) (z : ℤ) : Prop :=
  (if r.includeLeft then r.left ≤ z else r.left < z) ∧
    (if r.includeRight then z ≤ r.right else z < r.right)

lemma within_iff (r : Range ℤ) (z : ℤ) : r.within z = true ↔ r.Contains z := by
  obtain ⟨left, right, includeLeft, includeRight⟩ := r
  cases includeLeft <;> cases includeRight <;>
    simp [Range.within, Range.Contains] <;> omega

variable {D F : Type}

lemma FieldKind.load_eq_ok {T : Type} {dump : Json D → String} {kind : FieldKind D T}
    {type : ParamType} {name : String} {entry : Entry T} {r : Range T} {j : Json D} {u : Option T}
    (htype : type ∈ entry.type) (hrange : entry.range = some r) :
    kind.load dump type name entry (some j) = .ok u ↔
      kind.hasType j = true ∧ kind.overflows j = false ∧ kind.within r (kind.convert j) = true
        ∧ some (kind.convert j) = u := by
  unfold FieldKind.load
  rw [if_neg (not_not.mpr htype), hrange]
  cases hhas : kind.hasType j with
  | false => simp [hhas]
  | true =>
    cases hover : kind.overflows j with
    | true => simp [hhas, hover]
    | false =>
      cases hwithin : kind.within r (kind.convert j) with
      | false => simp [hhas, hover, hwithin]
      | true => simp [hhas, hover, hwithin]

lemma intKind_load_eq_ok {dump : Json D → String} {type : ParamType} {name : String}
    {entry : Entry ℤ} {r : Range ℤ} {z : ℤ} {u : Option ℤ} (htype : type ∈ entry.type)
    (hrange : entry.range = some r) :
    intKind.load dump type name entry (some (.integer z)) = .ok u ↔
      ((-2 ^ 63 ≤ z ∧ z < 2 ^ 64) ∧ (z < 2 ^ 31 ∨ 2 ^ 63 ≤ z)) ∧ r.Contains (wrapInt 32 z)
        ∧ some (wrapInt 32 z) = u := by
  rw [FieldKind.load_eq_ok htype hrange, ← within_iff, ← and_assoc]
  apply and_congr_left'
  show decide (-2 ^ 63 ≤ z ∧ z < 2 ^ 64) = true ∧ decide (2 ^ 31 - 1 < wrapInt 64 z) = false ↔ _
  rw [decide_eq_true_iff, decide_eq_false_iff_not, not_lt]
  apply and_congr_right
  intro hfits
  exact wrapInt_64_le_iff hfits.1 hfits.2

section Loop

variable [LinearOrder D] [LinearOrder F] {dump : Json D → String} {ops : FloatCasts D F}
  {type : ParamType} {json : String → Option (Json D)} {dict : List (String × VarEntry D F)}
  {fields : Fields D F} {name : String}

lemma loadFields_of_notMem (h : name ∉ dict.map Prod.fst) :
    (loadFields dump ops type json dict fields).1 name = fields name := by
  induction dict generalizing fields with
  | nil => rfl
  | cons p dict ih =>
    obtain ⟨hne, hnot⟩ := not_or.mp (mt mem_cons.mpr h)
    rw [loadFields]
    split
    · rfl
    · exact ih hnot
    · rw [ih hnot, update_of_ne hne]

lemma exists_load_of_loadFields (hnodup : (dict.map Prod.fst).Nodup)
    (hmem : (name, entry) ∈ dict) (hok : (loadFields dump ops type json dict fields).2 = none) :
    ∃ u, entry.load dump ops type name (json name) = .ok u ∧
      ∀ v, u = some v → (loadFields dump ops type json dict fields).1 name = some v := by
  induction dict generalizing fields with
  | nil => simp at hmem
  | cons p dict ih =>
    obtain ⟨name', entry'⟩ := p
    obtain ⟨hnot, hnodup⟩ := nodup_cons.mp hnodup
    rcases mem_cons.mp hmem with heq | hmem
    · cases heq
      cases hload : entry.load dump ops type name (json name) with
      | error err => simp [loadFields, hload] at hok
      | ok u =>
        refine ⟨u, rfl, ?_⟩
        rintro v rfl
        -- the rest of the loop has other fields
        rw [loadFields, hload]
        exact (loadFields_of_notMem hnot).trans (update_self ..)
    · cases hload : entry'.load dump ops type name' (json name') with
      | error err => simp [loadFields, hload] at hok
      | ok u =>
        rw [loadFields, hload] at hok ⊢
        cases u with
        | none => exact ih hnodup hmem hok
        | some v => exact ih hnodup hmem hok

lemma ConfigClass.load_int (cls : ConfigClass D F)
    (hmem : (name, .int entry) ∈ cls.dict) (htype : type ∈ entry.type)
    (hrange : entry.range = some r) (hjson : json name = some (.integer z))
    (hok : (cls.load dump ops type json fields).2 = none) :
    ((-2 ^ 63 ≤ z ∧ z < 2 ^ 64) ∧ (z < 2 ^ 31 ∨ 2 ^ 63 ≤ z)) ∧ r.Contains (wrapInt 32 z)
      ∧ (cls.load dump ops type json fields).1 name = some (.int (wrapInt 32 z)) := by
  have hdone : (loadFields dump ops type json cls.dict fields).2 = none := by
    by_contra hfailed
    obtain ⟨err, herr⟩ := Option.ne_none_iff_exists'.mp hfailed
    have hpair : loadFields dump ops type json cls.dict fields
        = ((loadFields dump ops type json cls.dict fields).1, some err) := Prod.ext rfl herr
    rw [ConfigClass.load, hpair] at hok
    cases hok
  have hload : cls.load dump ops type json fields
      = cls.checkAndAdjust type (loadFields dump ops type json cls.dict fields).1 := by
    rw [ConfigClass.load, ← Prod.eta (loadFields dump ops type json cls.dict fields), hdone]
  obtain ⟨u, hu, hset⟩ := exists_load_of_loadFields cls.names_nodup hmem hdone
  rw [hjson] at hu
  obtain ⟨u', hu', rfl⟩ := map_eq_ok.mp hu
  obtain ⟨htests, hcontains, rfl⟩ := (intKind_load_eq_ok htype hrange).mp hu'
  refine ⟨htests, hcontains, ?_⟩
  rw [hload]
  exact cls.keeps_int type _ name entry _ hmem (by rw [hrange]; rfl) (hset _ rfl)

end Loop

def LoadsExactly (r : Range ℤ) (z : ℤ) : Prop :=
  ∀ (D F : Type) [LinearOrder D] [LinearOrder F] (dump : Json D → String) (ops : FloatCasts D F)
    (cls : ConfigClass D F) (type : ParamType) (json : String → Option (Json D))
    (fields : Fields D F) (name : String) (entry : Entry ℤ),
    (name, .int entry) ∈ cls.dict → type ∈ entry.type → entry.range = some r →
    json name = some (.integer z) → (cls.load dump ops type json fields).2 = none →
    r.Contains z ∧ (cls.load dump ops type json fields).1 name = some (.int z)

def oneInt (name : String) (r : Range ℤ) : ConfigClass ℤ ℤ where
  dict := [(name, .int { type := [.search], range := some r })]
  names_nodup := by simp
  checkAndAdjust _ fields := (fields, none)
  keeps_int := fun _ _ _ _ _ _ _ h => h

def noFloats : FloatCasts ℤ ℤ where
  toDouble _ := 0
  toFloat _ := 0
  floatMax := 0
  maxText := ""
  text _ := ""

lemma load_oneInt (name : String) (fields : Fields ℤ ℤ)
    (htests : (-2 ^ 63 ≤ z ∧ z < 2 ^ 64) ∧ (z < 2 ^ 31 ∨ 2 ^ 63 ≤ z))
    (hwraps : r.Contains (wrapInt 32 z)) :
    (oneInt name r).load (fun _ => "") noFloats .search (fun _ => some (.integer z)) fields
      = (update fields name (some (.int (wrapInt 32 z))), none) := by
  have hfield : intKind.load (fun _ : Json ℤ => "") .search name
      { type := [.search], range := some r } (some (.integer z)) = .ok (some (wrapInt 32 z)) :=
    (intKind_load_eq_ok mem_cons_self rfl).mpr ⟨htests, hwraps, rfl⟩
  simp only [ConfigClass.load, oneInt, loadFields, VarEntry.load, hfield, Except.map,
    Option.map_some]

/-- **Which integers are loaded exactly**: all but those below `-2^31` that fit `int64_t`, and those
that only fit `uint64_t`, if their low 32 bits are in the range. -/
theorem loadsExactly_iff (r : Range ℤ) (z : ℤ) :
    LoadsExactly r z ↔
      (-2 ^ 63 ≤ z ∧ z < -2 ^ 31) ∨ (2 ^ 63 ≤ z ∧ z < 2 ^ 64) → ¬ r.Contains (wrapInt 32 z) := by
  constructor
  · intro hexact hzone hwraps
    have hload := load_oneInt "k" (fun _ => none) (by omega) hwraps
    obtain ⟨-, hvalue⟩ := hexact ℤ ℤ _ _ _ _ _ _ "k" _ mem_cons_self mem_cons_self rfl rfl
      (congrArg Prod.snd hload)
    rw [hload] at hvalue
    have hsame : wrapInt 32 z = z := by simpa using hvalue
    have hbounds := wrapInt_32_bounds z
    omega
  · intro hzone D F _ _ dump ops cls type json fields name entry hmem htype hrange hjson hok
    obtain ⟨⟨hfits, hover⟩, hcontains, hvalue⟩ := cls.load_int hmem htype hrange hjson hok
    have hout : ¬ ((-2 ^ 63 ≤ z ∧ z < -2 ^ 31) ∨ (2 ^ 63 ≤ z ∧ z < 2 ^ 64)) := fun h =>
      hzone h hcontains
    have hsame : wrapInt 32 z = z := wrapInt_32_of_fits (by omega) (by omega)
    rw [hsame] at hcontains hvalue
    exact ⟨hcontains, hvalue⟩

/-- `k` in `[1, 2^31 - 1]`: the integer `5 - 2^32` is accepted, and stored as 5. -/
theorem load_acceptsWrapped :
    ∃ fields : Fields ℤ ℤ,
      (oneInt "k" ⟨1, 2147483647, true, true⟩).load (fun _ => "") noFloats .search
        (fun _ => some (.integer (5 - 2 ^ 32))) (fun _ => none) = (fields, none) ∧
      fields "k" = some (.int 5) ∧ ¬ Range.Contains ⟨1, 2147483647, true, true⟩ (5 - 2 ^ 32) := by
  have hwrap : wrapInt 32 (5 - 2 ^ 32) = 5 := by decide
  refine ⟨_, load_oneInt "k" _ (by omega) ?_, ?_, ?_⟩
  · rw [hwrap]
    simp [Range.Contains]
  · rw [hwrap, update_self]
  · simp [Range.Contains]

end Rvanns.Knowhere
