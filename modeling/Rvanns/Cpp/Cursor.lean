import Rvanns.Cpp.Returns

/-!
# Loops over an iterator

`while (it->HasNext()) { a = it->Next(); … }`, where the body may leave the loop early.
-/

namespace Rvanns.Cpp

open Option

/-- An iterator, in all its states. -/
structure Cursor (α : Type) where
  State : Type
  hasNext : State → Except Fault (Bool × State)
  next : State → Except Fault (α × State)

namespace Cursor

variable {α σ : Type}

inductive Delivers (c : Cursor α) : c.State → List α → Prop
  | done {s s' : c.State} (h : c.hasNext s = .ok (false, s')) : Delivers c s []
  | step {s s' s'' : c.State} {a : α} {l : List α} (hmore : c.hasNext s = .ok (true, s'))
      (hnext : c.next s' = .ok (a, s'')) (hrest : Delivers c s'' l) : Delivers c s (a :: l)

lemma Delivers.unique {c : Cursor α} {s : c.State} {l l' : List α} (h : c.Delivers s l)
    (h' : c.Delivers s l') : l = l' := by
  induction h generalizing l' with
  | done hnone =>
    cases h' with
    | done => rfl
    | step hmore => simp [hnone] at hmore
  | step hmore hnext _ ih =>
    cases h' with
    | done hnone => simp [hmore] at hnone
    | step hmore' hnext' hrest' =>
      obtain ⟨-, rfl⟩ := Prod.mk.inj (ok_unique hmore hmore')
      obtain ⟨rfl, rfl⟩ := Prod.mk.inj (ok_unique hnext hnext')
      rw [ih hrest']

lemma Delivers.of_hasNext_eq {c : Cursor α} {s s' : c.State} {l : List α} (h : c.Delivers s' l)
    (hhas : c.hasNext s = c.hasNext s') : c.Delivers s l := by
  cases h with
  | done hnone => exact .done (hhas.trans hnone)
  | step hmore hnext hrest => exact .step (hhas.trans hmore) hnext hrest

/-- The iterator over a vector: its state is what is left. -/
def ofList (α : Type) : Cursor α where
  State := List α
  hasNext l := .ok (!l.isEmpty, l)
  next
    | [] => .error .undefined
    | a :: l => .ok (a, l)

lemma delivers_ofList (l : List α) : (ofList α).Delivers l l := by
  induction l with
  | nil => exact .done rfl
  | cons a l ih => exact .step rfl rfl ih

def loop (c : Cursor α) (body : σ → α → Option (σ × Bool)) : ℕ → c.State → σ → Except Fault σ
  | 0, _, _ => .error .undefined
  | fuel + 1, it, s => do
    let (more, it) ← c.hasNext it
    if more then
      let (a, it) ← c.next it
      let (s, stop) ← defined (body s a)
      if stop then return s else loop c body fuel it s
    else return s

/-- The loop over a list. -/
def loopList (body : σ → α → Option (σ × Bool)) : List α → σ → Option σ
  | [], s => some s
  | a :: l, s => do
    let (s, stop) ← body s a
    if stop then return s else loopList body l s

variable {c : Cursor α} {body : σ → α → Option (σ × Bool)}

lemma loop_eq (h : c.Delivers it l)
    (hfuel : l.length < fuel) (s : σ) : c.loop body fuel it s = defined (loopList body l s) := by
  induction h generalizing fuel s with
  | done hnone =>
    obtain ⟨fuel, rfl⟩ := Nat.exists_eq_add_of_lt hfuel
    rw [loop, hnone]
    rfl
  | @step it it' it'' a l hmore hnext _ ih =>
    obtain ⟨fuel, rfl⟩ : ∃ m, fuel = m + 1 := ⟨fuel - 1, by omega⟩
    rw [loop, hmore, ok_bind, loopList]
    dsimp only
    rw [hnext, ok_bind]
    cases body s a with
    | none => rfl
    | some r =>
      obtain ⟨s', stop⟩ := r
      cases stop with
      | true => rfl
      | false => exact ih (by simpa using hfuel) s'

lemma returns_loopList {P : List α → σ → Prop}
    (hbody : ∀ pre s a, P pre s → Returns (body s a) fun r => P (pre ++ [a]) r.1) (l : List α)
    (hs : P [] s) : Returns (loopList body l s) fun s' => ∃ pre, pre <+: l ∧ P pre s' := by
  -- the loop from the middle, after the values in `pre`
  have hgo : ∀ l pre s, P pre s →
      Returns (loopList body l s) fun s' => ∃ post, post <+: l ∧ P (pre ++ post) s' := by
    intro l
    induction l with
    | nil =>
      intro pre s hs
      exact .pure ⟨[], List.prefix_rfl, by simpa using hs⟩
    | cons a l ih =>
      intro pre s hs
      apply (hbody pre s a hs).bind
      rintro ⟨s', stop⟩ hs'
      cases stop with
      | true => exact .pure ⟨[a], by simp, hs'⟩
      | false =>
        apply (ih (pre ++ [a]) s' hs').mono
        rintro s'' ⟨post, hpost, hs''⟩
        exact ⟨a :: post, List.cons_prefix_cons.mpr ⟨rfl, hpost⟩, by simpa using hs''⟩
  exact hgo l [] s hs

lemma loopList_append {P : σ → Prop} {R : σ → σ → Prop} (hrefl : ∀ s, R s s)
    (htrans : ∀ s s' s'', R s s' → R s' s'' → R s s'')
    (hbody : ∀ s a r, P s → body s a = some r → P r.1 ∧ R s r.1)
    (hs : P s) (h : loopList body l s = some s') (h' : loopList body (l ++ l') s = some s'') :
    R s' s'' := by
  -- from a state on, the loop over any list leads to a related one
  have hrun : ∀ l s s', P s → loopList body l s = some s' → R s s' := by
    intro l
    induction l with
    | nil =>
      intro s s' _ h
      obtain rfl := some.inj h
      exact hrefl s
    | cons a l ih =>
      intro s s' hs h
      obtain ⟨⟨t, stop⟩, ht, h⟩ := bind_eq_some_iff.mp h
      obtain ⟨hPt, hRt⟩ := hbody s a _ hs ht
      cases stop with
      | true =>
        obtain rfl := some.inj h
        exact hRt
      | false => exact htrans _ _ _ hRt (ih t s' hPt h)
  induction l generalizing s with
  | nil =>
    obtain rfl := some.inj h
    exact hrun l' s s'' hs h'
  | cons a l ih =>
    obtain ⟨⟨t, stop⟩, ht, h⟩ := bind_eq_some_iff.mp h
    obtain ⟨⟨t', stop'⟩, ht', h'⟩ := bind_eq_some_iff.mp h'
    obtain ⟨rfl, rfl⟩ := Prod.mk.inj (Option.mem_unique ht ht')
    cases stop with
    | true =>
      obtain rfl := some.inj h
      obtain rfl := some.inj h'
      exact hrefl _
    | false => exact ih (hbody s a _ hs ht).1 h h'

end Cursor

end Rvanns.Cpp
