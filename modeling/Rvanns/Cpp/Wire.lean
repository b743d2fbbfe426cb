import Mathlib

/-!
# Binary formats

A `Wire α` is a writer and a reader for values of one type, with the law that ties them together.
-/

namespace Rvanns.Cpp

open List Option

variable {α β : Type}

def leBytes : ℕ → ℕ → List UInt8
  | 0, _ => []
  | n + 1, a => UInt8.ofNat (a % 256) :: leBytes n (a / 256)

def leValue : List UInt8 → ℕ
  | [] => 0
  | b :: bs => b.toNat + 256 * leValue bs

@[simp] lemma length_leBytes (n a : ℕ) : (leBytes n a).length = n := by
  induction n generalizing a with
  | zero => rfl
  | succ n ih => rw [leBytes, length_cons, ih]

lemma leValue_leBytes (h : a < 256 ^ n) : leValue (leBytes n a) = a := by
  induction n generalizing a with
  | zero =>
    obtain rfl : a = 0 := by simpa using h
    rfl
  | succ n ih =>
    have hdiv : a / 256 < 256 ^ n := by
      rw [Nat.div_lt_iff_lt_mul (by decide)]
      exact h
    have hbyte : (UInt8.ofNat (a % 256)).toNat = a % 256 := by
      rw [UInt8.toNat_ofNat']
      omega
    rw [leBytes, leValue, ih hdiv]
    omega

lemma leValue_lt (bs : List UInt8) : leValue bs < 256 ^ bs.length := by
  induction bs with
  | nil => simp [leValue]
  | cons b bs ih =>
    have hb := b.toNat_lt
    rw [leValue, length_cons]
    omega

/-- Why a reader gives up. -/
inductive ReadError where
  | endOfInput
  | tooLong
  | unknownTag
  | unknownValue
deriving DecidableEq, Repr

def readReply (refusal : Option ReadError) (a : α) (rest : List UInt8) :
    Except ReadError (α × List UInt8) :=
  match refusal with
  | none => .ok (a, rest)
  | some e => .error e

@[simp] lemma readReply_none (a : α) (rest : List UInt8) :
    readReply none a rest = .ok (a, rest) := rfl

@[simp] lemma readReply_some (e : ReadError) (a : α) (rest : List UInt8) :
    readReply (some e) a rest = .error e := rfl

structure Wire (α : Type) where
  write : α → Option (List UInt8)
  read : List UInt8 → Except ReadError (α × List UInt8)
  refusal : α → Option ReadError
  read_write : ∀ {a bs}, write a = some bs → ∀ rest,
    read (bs ++ rest) = readReply (refusal a) a rest

namespace Wire

/-- An unsigned number of `n` bytes. -/
def uint (n : ℕ) : Wire ℕ where
  write a := if a < 256 ^ n then some (leBytes n a) else none
  read bs := if n ≤ bs.length then .ok (leValue (bs.take n), bs.drop n) else .error .endOfInput
  refusal _ := none
  read_write := by
    intro a bs h rest
    split_ifs at h with hlt
    obtain rfl := some.inj h
    have hlen := length_leBytes n a
    rw [if_pos (by rw [length_append]; omega), take_left' hlen, drop_left' hlen,
      leValue_leBytes hlt, readReply_none]

def skip (bytes : List UInt8) : Wire Unit where
  write _ := some bytes
  read bs := if bytes.length ≤ bs.length then .ok ((), bs.drop bytes.length)
    else .error .endOfInput
  refusal _ := none
  read_write := by
    intro a bs h rest
    obtain rfl := some.inj h
    simp

def map (w : Wire α) (forth : α → β) (back : β → α) (h : ∀ b, forth (back b) = b) : Wire β where
  write b := w.write (back b)
  read bs := (w.read bs).map fun p => (forth p.1, p.2)
  refusal b := w.refusal (back b)
  read_write := by
    intro b bs hw rest
    rw [w.read_write hw]
    cases w.refusal (back b) with
    | none => simp [Except.map, h]
    | some e => rfl

/-- Values that the reader turns down. -/
def guard (w : Wire α) (ok : α → Bool) (e : ReadError) : Wire α where
  write := w.write
  read bs := do
    let (a, bs) ← w.read bs
    if ok a then .ok (a, bs) else .error e
  refusal a := (w.refusal a).or (if ok a then none else some e)
  read_write := by
    intro a bs hw rest
    rw [w.read_write hw]
    cases w.refusal a with
    | none =>
      show (if ok a then Except.ok (a, rest) else .error e) = _
      cases ok a <;> rfl
    | some e' => rfl

def sigma {γ : α → Type} (v : Wire α) (w : ∀ a, Wire (γ a)) : Wire (Σ a, γ a) where
  write p := do
    let xs ← v.write p.1
    let ys ← (w p.1).write p.2
    return xs ++ ys
  read bs := do
    let (a, bs) ← v.read bs
    let (b, bs) ← (w a).read bs
    return (⟨a, b⟩, bs)
  refusal p := (v.refusal p.1).or ((w p.1).refusal p.2)
  read_write := by
    rintro ⟨a, b⟩ bs h rest
    obtain ⟨xs, hxs, ys, hys, rfl⟩ : ∃ xs, v.write a = some xs ∧ ∃ ys, (w a).write b = some ys
        ∧ xs ++ ys = bs := by
      simpa [bind_eq_some_iff] using h
    rw [append_assoc, v.read_write hxs]
    cases v.refusal a with
    | some e => rfl
    | none =>
      show ((w a).read (ys ++ rest) >>= fun p => pure ((⟨a, p.1⟩ : Σ a, γ a), p.2)) = _
      rw [(w a).read_write hys]
      cases (w a).refusal b <;> rfl

/-- One format after the other. -/
def prod (v : Wire α) (w : Wire β) : Wire (α × β) :=
  (v.sigma fun _ => w).map (fun p => (p.1, p.2)) (fun p => ⟨p.1, p.2⟩) (fun _ => rfl)

def followedBy (v : Wire α) (w : α → Wire Unit) : Wire α :=
  (v.sigma w).map (fun p => p.1) (fun a => ⟨a, ()⟩) (fun _ => rfl)

/-- A signed number of `n` bytes in two's complement. -/
def sint (n : ℕ) : Wire ℤ where
  write z := if -(256 ^ n : ℤ) ≤ 2 * z ∧ 2 * z < 256 ^ n then
      (uint n).write (z % 256 ^ n).toNat
    else none
  read bs := ((uint n).read bs).map fun p =>
    (if 2 * p.1 < 256 ^ n then (p.1 : ℤ) else (p.1 : ℤ) - 256 ^ n, p.2)
  refusal _ := none
  read_write := by
    intro z bs h rest
    split_ifs at h with hz
    rw [(uint n).read_write h]
    have hpos : (0 : ℤ) < 256 ^ n := by positivity
    have hmod := Int.emod_nonneg z hpos.ne'
    have hlt := Int.emod_lt_of_pos z hpos
    have hcast := Int.toNat_of_nonneg hmod
    have hpow : ((256 ^ n : ℕ) : ℤ) = 256 ^ n := by push_cast; rfl
    simp only [show (uint n).refusal (z % 256 ^ n).toNat = none from rfl, readReply_none,
      Except.map]
    -- the value is the remainder itself, or the remainder less a full turn
    rcases le_or_gt 0 z with hz0 | hz0
    · have hself : z % 256 ^ n = z := Int.emod_eq_of_lt hz0 (by omega)
      rw [if_pos (by omega), hcast, hself]
    · have hturn : z % 256 ^ n = z + 256 ^ n := by
        rw [← Int.add_emod_right, Int.emod_eq_of_lt (by omega) (by omega)]
      rw [if_neg (by omega), hcast, hturn, Int.add_sub_cancel]

def enum (n : ℕ) (code : α → ℕ) (ofCode : ℕ → Option α) (h : ∀ a, ofCode (code a) = some a)
    (e : ReadError) : Wire α where
  write a := (uint n).write (code a)
  read bs := do
    let (c, bs) ← (uint n).read bs
    match ofCode c with
    | some a => .ok (a, bs)
    | none => .error e
  refusal _ := none
  read_write := by
    intro a bs hw rest
    rw [(uint n).read_write hw]
    simp [h, show (uint n).refusal (code a) = none from rfl, bind, Except.bind]

def bool : Wire Bool :=
  enum 1 (fun b => if b then 1 else 0) (fun c => some (c != 0)) (by decide) .unknownValue

def choice {ι : Type} (n : ℕ) (tag : ι → ℕ) (ofTag : ℕ → Option ι)
    (h : ∀ i, ofTag (tag i) = some i) {γ : ι → Type} (w : ∀ i, Wire (γ i)) : Wire (Σ i, γ i) :=
  (enum n tag ofTag h .unknownTag).sigma w

/-- What was written begins with the tag. -/
lemma write_choice {ι : Type} {n : ℕ} {tag : ι → ℕ} {ofTag : ℕ → Option ι}
    {h : ∀ i, ofTag (tag i) = some i} {γ : ι → Type} {w : ∀ i, Wire (γ i)} {p : Σ i, γ i}
    {bs : List UInt8} (hw : (choice n tag ofTag h w).write p = some bs) :
    ∃ xs ys, (uint n).write (tag p.1) = some xs ∧ xs ++ ys = bs := by
  obtain ⟨xs, hxs, ys, -, hbs⟩ : ∃ xs, (uint n).write (tag p.1) = some xs
      ∧ ∃ ys, (w p.1).write p.2 = some ys ∧ xs ++ ys = bs := by
    simpa [choice, sigma, enum, bind_eq_some_iff] using hw
  exact ⟨xs, ys, hxs, hbs⟩

def readMany (w : Wire α) : ℕ → List UInt8 → Except ReadError (List α × List UInt8)
  | 0, bs => .ok ([], bs)
  | n + 1, bs => do
    let (a, bs) ← w.read bs
    let (l, bs) ← readMany w n bs
    return (a :: l, bs)

def writeMany (w : Wire α) : List α → Option (List UInt8)
  | [] => some []
  | a :: l => do
    let xs ← w.write a
    let ys ← writeMany w l
    return xs ++ ys

lemma readMany_writeMany (w : Wire α) (h : w.writeMany l = some bs) (rest : List UInt8) :
    w.readMany l.length (bs ++ rest) = readReply (l.findSome? w.refusal) l rest := by
  induction l generalizing bs with
  | nil =>
    cases h
    rfl
  | cons a l ih =>
    obtain ⟨xs, hxs, ys, hys, rfl⟩ : ∃ xs, w.write a = some xs ∧ ∃ ys, w.writeMany l = some ys
        ∧ xs ++ ys = bs := by
      simpa [writeMany, bind_eq_some_iff] using h
    rw [length_cons, readMany, append_assoc, w.read_write hxs, findSome?_cons]
    cases w.refusal a with
    | some e => rfl
    | none =>
      show (w.readMany l.length (ys ++ rest) >>= fun p => pure (a :: p.1, p.2)) = _
      rw [ih hys]
      cases l.findSome? w.refusal <;> rfl

lemma length_of_readMany (w : Wire α) (h : w.readMany n bs = .ok p) : p.1.length = n := by
  induction n generalizing bs p with
  | zero =>
    cases h
    rfl
  | succ n ih =>
    rw [readMany] at h
    cases ha : w.read bs with
    | error e => simp [ha, bind, Except.bind] at h
    | ok q =>
      cases hl : w.readMany n q.2 with
      | error e => simp [ha, hl, bind, Except.bind] at h
      | ok r =>
        obtain rfl : (q.1 :: r.1, r.2) = p := by
          simpa [ha, hl, bind, Except.bind, pure, Except.pure] using h
        rw [length_cons, ih hl]

/-- A number of values that is known beforehand. -/
def many (w : Wire α) (n : ℕ) : Wire { l : List α // l.length = n } where
  write l := w.writeMany l.1
  read bs :=
    match h : w.readMany n bs with
    | .ok p => .ok (⟨p.1, w.length_of_readMany h⟩, p.2)
    | .error e => .error e
  refusal l := l.1.findSome? w.refusal
  read_write := by
    rintro ⟨l, rfl⟩ bs hw rest
    have hread := w.readMany_writeMany hw rest
    cases hr : l.findSome? w.refusal with
    | none =>
      rw [hr, readReply_none] at hread
      split
      next p hp =>
        obtain rfl : (l, rest) = p := Except.ok.inj (hread.symm.trans hp)
        rfl
      next e he => cases hread.symm.trans he
    | some e =>
      rw [hr, readReply_some] at hread
      split
      next p hp => cases hread.symm.trans hp
      next e' he =>
        obtain rfl : e = e' := Except.error.inj (hread.symm.trans he)
        rfl

def vector (n limit : ℕ) (w : Wire α) : Wire (List α) :=
  (((uint n).guard (· < limit) .tooLong).sigma w.many).map (fun p => p.2.1)
    (fun l => ⟨l.length, l, rfl⟩) (fun _ => rfl)

end Wire

end Rvanns.Cpp
