import Rvanns.Cpp.Vector

/-!
# Total correctness of code that may fail

Code that can leave a vector or run forever is a computation in `Option`: `none` stands for both.
Code that may also throw is one in `Except Fault`.
-/

namespace Rvanns.Cpp

open List

universe u

variable {α β : Type u} {σ ρ : Type*}

def Returns (x : Option α) (Q : α → Prop) : Prop := ∃ a, x = some a ∧ Q a

namespace Returns

variable {x : Option α} {P Q : α → Prop}

lemma pure (h : Q a) : Returns (some a) Q := ⟨a, rfl, h⟩

lemma of_eq (hx : x = some a) (h : Q a) : Returns x Q := ⟨a, hx, h⟩

lemma mono (h : Returns x P) (hPQ : ∀ a, P a → Q a) : Returns x Q := by
  obtain ⟨a, hx, ha⟩ := h
  exact ⟨a, hx, hPQ a ha⟩

lemma bind (h : Returns x P) (hf : ∀ a, P a → Returns (f a) R) : Returns (x >>= f) R := by
  obtain ⟨a, rfl, ha⟩ := h
  exact hf a ha

lemma bind_eq (hx : x = some a) (h : Returns (f a) R) : Returns (x >>= f) R := by
  rwa [hx]

lemma map (h : Returns x P) (hf : ∀ a, P a → R (f a)) : Returns (x.map f) R := by
  obtain ⟨a, rfl, ha⟩ := h
  exact ⟨f a, rfl, hf a ha⟩

lemma getElem? {v : List α} (hi : i < v.length) : Returns v[i]? (v[i]? = some ·) :=
  ⟨v.get ⟨i, hi⟩, getElem?_eq_getElem hi, getElem?_eq_getElem hi⟩

end Returns

lemma Returns.foldlM {f : σ → α → Option σ} {P : List α → σ → Prop} (l : List α)
    (hstep : ∀ pre a post, l = pre ++ a :: post → ∀ s, P pre s → Returns (f s a) (P (pre ++ [a])))
    (hs : P [] s) : Returns (l.foldlM f s) (P l) := by
  -- the loop from the middle: `pre` is done, `post` is to come
  have hgo : ∀ post pre, l = pre ++ post → ∀ s, P pre s → Returns (post.foldlM f s) (P l) := by
    intro post
    induction post with
    | nil =>
      intro pre hl s hs
      rw [append_nil] at hl
      exact hl ▸ .pure hs
    | cons a post ih =>
      intro pre hl s hs
      exact (hstep pre a post hl s hs).bind fun s' hs' => ih (pre ++ [a]) (by simp [hl]) s' hs'
  exact hgo l [] rfl s hs

lemma Returns.foldlM_inv {f : σ → α → Option σ} {P : σ → Prop} (l : List α)
    (hstep : ∀ a ∈ l, ∀ s, P s → Returns (f s a) P) (hs : P s) :
    Returns (l.foldlM f s) P :=
  .foldlM (P := fun _ => P) l (fun _ a _ hl => hstep a (by simp [hl])) hs

lemma foldlM_eq_some {f : σ → α → Option σ} {P : σ → Prop}
    (hstep : ∀ s a s', P s → f s a = some s' → P s') {l : List α} (hs : P s)
    (h : l.foldlM f s = some s') : P s' := by
  induction l generalizing s with
  | nil => exact Option.some.inj h ▸ hs
  | cons a l ih =>
    obtain ⟨next, hnext, hrest⟩ := Option.bind_eq_some_iff.mp h
    exact ih (hstep s a next hs hnext) hrest

lemma foldlM_eq_foldl {m : Type → Type} [Monad m] [LawfulMonad m] {α σ : Type}
    {f : σ → α → m σ} {g : σ → α → σ} {l : List α} (h : ∀ s, ∀ a ∈ l, f s a = pure (g s a))
    (s : σ) : l.foldlM f s = pure (l.foldl g s) := by
  induction l generalizing s with
  | nil => rfl
  | cons a l ih =>
    rw [foldlM_cons, h s a mem_cons_self, pure_bind]
    exact ih (fun s b hb => h s b (mem_cons_of_mem a hb)) (g s a)

lemma foldlM_congr {m : Type → Type} [Monad m] {α σ : Type} {f g : σ → α → m σ} {l : List α}
    (h : ∀ s, ∀ a ∈ l, f s a = g s a) (s : σ) : l.foldlM f s = l.foldlM g s := by
  induction l generalizing s with
  | nil => rfl
  | cons a l ih =>
    rw [foldlM_cons, h s a mem_cons_self]
    congr 1
    ext s'
    exact ih (fun s b hb => h s b (mem_cons_of_mem a hb)) s'

lemma foldlM_range_getElem? {α σ : Type} (f : σ → α → Option σ) (l : List α) (s : σ) :
    (range l.length).foldlM (fun s i => do
      let a ← l[i]?
      f s a) s = l.foldlM f s := by
  induction l using reverseRecOn generalizing s with
  | nil => rfl
  | append_singleton l a ih =>
    have hfront : ∀ s, ∀ i ∈ range l.length,
        ((l ++ [a])[i]? >>= fun b => f s b) = l[i]? >>= fun b => f s b := by
      intro s i hi
      rw [getElem?_append_left (mem_range.mp hi)]
    rw [length_append, length_singleton, range_succ, foldlM_append,
      foldlM_append, foldlM_congr hfront, ih]
    congr 1
    funext s'
    rw [foldlM_cons, getElem?_concat_length]
    rfl

lemma foldlM_eq_none {α σ : Type} {f : σ → α → Option σ} {l : List α} {a : α} (ha : a ∈ l)
    (h : ∀ s, f s a = none) (s : σ) : l.foldlM f s = none := by
  induction l generalizing s with
  | nil => simp at ha
  | cons b l ih =>
    rw [foldlM_cons]
    rcases mem_cons.mp ha with rfl | ha
    · rw [h s]
      rfl
    · cases f s b with
      | none => rfl
      | some s' => exact ih ha s'

lemma foldlM_range_eq_pure {m : Type → Type} [Monad m] [LawfulMonad m] {σ : Type}
    {f : σ → ℕ → m σ} {S : ℕ → σ} (h : ∀ i < n, f (S i) i = pure (S (i + 1))) :
    (range n).foldlM f (S 0) = pure (S n) := by
  induction n with
  | zero => rfl
  | succ n ih =>
    rw [range_succ, foldlM_append, ih fun i hi => h i (by omega), pure_bind,
      foldlM_cons, h n (by omega), pure_bind, foldlM_nil]

/-- A loop whose turns fail when their condition does not hold. -/
lemma foldlM_range_eq_ite {ε σ : Type} {f : σ → ℕ → Except ε σ} {S : ℕ → σ} {c : ℕ → Prop}
    [DecidablePred c] {e : ε} {n : ℕ} (h : ∀ i < n, (∀ j < i, c j) →
      f (S i) i = if c i then .ok (S (i + 1)) else .error e) :
    (range n).foldlM f (S 0) = if ∀ i < n, c i then .ok (S n) else .error e := by
  induction n with
  | zero => exact (if_pos fun i hi => absurd hi i.not_lt_zero).symm
  | succ n ih =>
    rw [range_succ, foldlM_append, ih fun i hi => h i (by omega)]
    by_cases hall : ∀ i < n, c i
    · have hlast : ([n].foldlM f (S n) : Except ε σ) = f (S n) n := by
        rw [foldlM_cons]
        exact bind_pure _
      rw [if_pos hall]
      refine hlast.trans ((h n n.lt_succ_self hall).trans (if_congr ?_ rfl rfl))
      rw [Nat.forall_lt_succ_right]
      exact (and_iff_right hall).symm
    · rw [if_neg hall, if_neg fun hmore => hall fun i hi => hmore i (by omega)]
      rfl

/-- A loop that lets something grow, and fails when it reaches a bound. -/
lemma foldlM_range_eq_of_mono {ε σ : Type} {f : σ → ℕ → Except ε σ} {S : ℕ → σ} {e : ε}
    {n : ℕ} (size : ℕ → ℕ) (bound : ℕ) (hmono : Monotone size) (hstart : size 0 < bound)
    (h : ∀ i < n, size i < bound →
      f (S i) i = if size (i + 1) < bound then .ok (S (i + 1)) else .error e) :
    (range n).foldlM f (S 0) = if size n < bound then .ok (S n) else .error e := by
  refine (foldlM_range_eq_ite (c := fun i => size (i + 1) < bound) fun i hi hbefore =>
    h i hi ?_).trans (if_congr ⟨fun hall => ?_, fun hn i hi => (hmono hi).trans_lt hn⟩ rfl rfl)
  · cases i with
    | zero => exact hstart
    | succ i => exact hbefore i i.lt_succ_self
  · cases n with
    | zero => exact hstart
    | succ n => exact hall n n.lt_succ_self

lemma Returns.foldlM_range {f : σ → ℕ → Option σ} {P : ℕ → σ → Prop} (n : ℕ)
    (hstep : ∀ i < n, ∀ s, P i s → Returns (f s i) (P (i + 1))) (hs : P 0 s) :
    Returns ((range n).foldlM f s) (P n) := by
  induction n with
  | zero => exact .pure hs
  | succ n ih =>
    rw [range_succ, foldlM_append]
    refine (ih fun i hi => hstep i (by omega)).bind fun s' hs' => ?_
    exact (hstep n (by omega) s' hs').bind fun s'' hs'' => .pure hs''

lemma Returns.mapM_range (n : ℕ) (h : ∀ i < n, ∃ a, f i = some a) :
    Returns ((range n).mapM f) fun l => l.length = n ∧ ∀ i < n, l[i]? = f i := by
  induction n with
  | zero => exact .pure ⟨rfl, by simp⟩
  | succ n ih =>
    obtain ⟨l, hl, hlen, hget⟩ := ih fun i hi => h i (by omega)
    obtain ⟨a, ha⟩ := h n (by omega)
    refine .of_eq (a := l ++ [a]) ?_ ⟨by simp [hlen], fun i hi => ?_⟩
    · rw [range_succ, mapM_append, hl, mapM_cons, ha]
      rfl
    · rcases Nat.lt_succ_iff_lt_or_eq.mp hi with hlt | rfl
      · rw [getElem?_append_left (by omega), hget i hlt]
      · rw [getElem?_append_right (by omega), hlen, Nat.sub_self, ha]
        rfl

inductive Turn (σ ρ : Type*) where
  | next (s : σ)
  | done (r : ρ)

def Turn.Meets (P : σ → Prop) (Q : ρ → Prop) : Turn σ ρ → Prop
  | .next s => P s
  | .done r => Q r

def whileLoop (turn : σ → Option (Turn σ ρ)) : ℕ → σ → Option ρ
  | 0, _ => none
  | fuel + 1, s =>
    match turn s with
    | none => none
    | some (.next s') => whileLoop turn fuel s'
    | some (.done r) => some r

/-- **The rule for `while`**: each turn keeps the invariant `P` and makes `μ` smaller, or ends the
loop in `Q`. -/
theorem Returns.whileLoop {turn : σ → Option (Turn σ ρ)} {P : σ → Prop} {Q : ρ → Prop} (μ : σ → ℕ)
    (hturn : ∀ s, P s → Returns (turn s) (Turn.Meets (fun s' => P s' ∧ μ s' < μ s) Q))
    (hs : P s) (hfuel : μ s < fuel) : Returns (whileLoop turn fuel s) Q := by
  induction fuel generalizing s with
  | zero => omega
  | succ fuel ih =>
    obtain ⟨t, ht, hmeets⟩ := hturn s hs
    unfold Cpp.whileLoop
    rw [ht]
    cases t with
    | next s' => exact ih hmeets.1 (Nat.lt_of_lt_of_le hmeets.2 (by omega))
    | done r => exact .pure hmeets

lemma whileLoop_eq_some {turn : σ → Option (Turn σ ρ)} {P : σ → Prop} {Q : ρ → Prop}
    (hturn : ∀ s t, P s → turn s = some t → t.Meets P Q) (hs : P s)
    (h : whileLoop turn fuel s = some r) : Q r := by
  induction fuel generalizing s with
  | zero => simp [whileLoop] at h
  | succ fuel ih =>
    unfold whileLoop at h
    cases ht : turn s with
    | none => simp [ht] at h
    | some t =>
      have hmeets := hturn s t hs ht
      rw [ht] at h
      cases t with
      | next s' => exact ih hmeets h
      | done r' =>
        cases h
        exact hmeets

/-! ### Code that may throw -/

inductive Fault where
  | thrown (msg : String)
  | undefined
deriving DecidableEq, Repr

def defined {α : Type*} (x : Option α) : Except Fault α :=
  match x with
  | some a => .ok a
  | none => .error .undefined

@[simp]
lemma defined_bind_some {α β : Type} (a : α) (f : α → Except Fault β) :
    (defined (some a) >>= f) = f a := rfl

@[simp]
lemma defined_eq_ok : defined x = .ok a ↔ x = some a := by
  cases x <;> simp [defined]

lemma ok_bind {ε α β : Type} (a : α) (f : α → Except ε β) : (.ok a >>= f) = f a := rfl

lemma ok_unique {ε α : Type*} {x : Except ε α} {a b : α} (ha : x = .ok a) (hb : x = .ok b) :
    a = b := Except.ok.inj (ha.symm.trans hb)

lemma toOption_eq_some {ε α : Type*} {x : Except ε α} {a : α} :
    x.toOption = some a ↔ x = .ok a := by
  cases x <;> simp [Except.toOption]

lemma bind_eq_ok {ε α β : Type} {x : Except ε α} {f : α → Except ε β} {b : β} :
    (x >>= f) = .ok b ↔ ∃ a, x = .ok a ∧ f a = .ok b := by
  cases x with
  | error e => simp [bind, Except.bind]
  | ok a => simp [bind, Except.bind]

lemma map_eq_ok {ε α β : Type*} {x : Except ε α} {f : α → β} {b : β} :
    x.map f = .ok b ↔ ∃ a, x = .ok a ∧ f a = b := by
  cases x with
  | error e => simp [Except.map]
  | ok a => simp [Except.map]

lemma exists_mapM_eq_ok {ε β : Type} {α : Type*} {f : α → Except ε β} {l : List α}
    (h : ∀ a ∈ l, ∃ b, f a = .ok b) : ∃ l', l.mapM f = .ok l' ∧ l'.length = l.length
      ∧ ∀ (i : ℕ) a, l[i]? = some a → ∃ b, l'[i]? = some b ∧ f a = .ok b := by
  induction l with
  | nil => exact ⟨[], rfl, rfl, fun i a ha => by simp at ha⟩
  | cons a l ih =>
    obtain ⟨b, hb⟩ := h a mem_cons_self
    obtain ⟨l', hl', hlen, hget⟩ := ih fun c hc => h c (mem_cons_of_mem a hc)
    refine ⟨b :: l', ?_, by rw [length_cons, hlen, length_cons], ?_⟩
    · rw [mapM_cons, hb, hl']
      rfl
    · intro i c hc
      cases i with
      | zero =>
        obtain rfl : a = c := by simpa using hc
        exact ⟨b, rfl, hb⟩
      | succ i => exact hget i c (by simpa using hc)

lemma foldlM_range_eq_ok {ε σ : Type} {f : σ → ℕ → Except ε σ} {P : ℕ → σ → Prop} {n : ℕ}
    (hstep : ∀ i < n, ∀ s s', P i s → f s i = .ok s' → P (i + 1) s') {s s' : σ} (hs : P 0 s)
    (h : (List.range n).foldlM f s = .ok s') : P n s' := by
  induction n generalizing s' with
  | zero =>
    obtain rfl := Except.ok.inj h
    exact hs
  | succ n ih =>
    rw [range_succ, foldlM_append] at h
    obtain ⟨t, ht, hlast⟩ := bind_eq_ok.mp h
    obtain ⟨u, hu, hnil⟩ := bind_eq_ok.mp hlast
    obtain rfl := Except.ok.inj hnil
    exact hstep n (by omega) t u (ih (fun i hi => hstep i (by omega)) ht) hu

end Rvanns.Cpp
