import Rvanns.Cpp.Vector
import Rvanns.Cpp.Wire

/-!
# Values at a position

A file that is written from front to back, or a buffer, holds given values from some position on.
-/

namespace Rvanns.Cpp

open List

section Segment

variable {α : Type*} {v w vals vals' : List α} {pos : ℕ}

def HoldsAt (v : List α) (pos : ℕ) (vals : List α) : Prop := vals <+: v.drop pos

lemma HoldsAt.extend (h : HoldsAt v pos vals) (hvw : v <+: w) : HoldsAt w pos vals := by
  obtain ⟨more, rfl⟩ := hvw
  obtain ⟨rest, hrest⟩ := h
  refine ⟨rest ++ more.drop (pos - v.length), ?_⟩
  rw [drop_append, ← hrest, append_assoc]

lemma holdsAt_append_length (v vals : List α) : HoldsAt (v ++ vals) v.length vals := by
  show vals <+: (v ++ vals).drop v.length
  rw [drop_left]

lemma HoldsAt.left (h : HoldsAt v pos (vals ++ vals')) : HoldsAt v pos vals :=
  (prefix_append _ _).trans h

lemma HoldsAt.right (h : HoldsAt v pos (vals ++ vals')) : HoldsAt v (pos + vals.length) vals' := by
  obtain ⟨rest, hrest⟩ := h
  refine ⟨rest, ?_⟩
  rw [← drop_drop, ← hrest, append_assoc, drop_left]

lemma HoldsAt.getElem? (h : HoldsAt v pos vals) (hi : i < vals.length) :
    v[pos + i]? = vals[i]? := by
  obtain ⟨rest, hrest⟩ := h
  rw [← getElem?_drop, ← hrest, getElem?_append_left hi]

lemma HoldsAt.readRange (h : HoldsAt v pos vals) :
    readRange v pos (pos + vals.length) = some vals := by
  obtain ⟨rest, hrest⟩ := h
  have hlen : vals.length + rest.length = v.length - pos := by
    rw [← length_append, hrest, length_drop]
  rcases Nat.eq_zero_or_pos vals.length with h0 | h0
  · rw [length_eq_zero_iff.mp h0, length_nil, add_zero, Cpp.readRange, if_pos le_rfl]
  · rw [readRange_of_le (by omega), ← hrest, Nat.add_sub_cancel_left, take_left]

lemma HoldsAt.drop (h : HoldsAt v (ofs + pos) vals) : HoldsAt (v.drop ofs) pos vals := by
  show vals <+: (v.drop ofs).drop pos
  rwa [drop_drop]

lemma HoldsAt.take (h : HoldsAt v pos vals) (hn : pos + vals.length ≤ n) :
    HoldsAt (v.take n) pos vals := by
  obtain ⟨rest, hrest⟩ := h
  have hfit : vals.length ≤ n - pos := by omega
  refine ⟨rest.take (n - pos - vals.length), ?_⟩
  rw [drop_take, ← hrest, take_append, take_of_length_le hfit]

lemma HoldsAt.overwrite (h : HoldsAt v pos vals) (hpos : front.length ≤ pos) :
    HoldsAt (front ++ v.drop front.length) pos vals := by
  show vals <+: (front ++ v.drop front.length).drop pos
  rw [drop_append, drop_of_length_le hpos, drop_drop, Nat.add_sub_cancel' hpos]
  exact h

end Segment

def u64Bytes (l : List ℕ) : List UInt8 := l.flatMap (leBytes 8)

@[simp] lemma u64Bytes_nil : u64Bytes [] = [] := rfl

@[simp] lemma u64Bytes_cons (a : ℕ) (l : List ℕ) : u64Bytes (a :: l) = leBytes 8 a ++ u64Bytes l :=
  rfl

@[simp] lemma u64Bytes_append (l l' : List ℕ) :
    u64Bytes (l ++ l') = u64Bytes l ++ u64Bytes l' := flatMap_append

@[simp] lemma length_u64Bytes (l : List ℕ) : (u64Bytes l).length = 8 * l.length := by
  induction l with
  | nil => rfl
  | cons a l ih =>
    rw [u64Bytes_cons, length_append, length_leBytes, length_cons]
    omega

/-- The number in the eight bytes from `pos` on. -/
def readU64 (v : List UInt8) (pos : ℕ) : Option ℕ := (readRange v pos (pos + 8)).map leValue

/-- An array of `n` numbers. -/
def readU64s (v : List UInt8) (pos : ℕ) : ℕ → Option (List ℕ)
  | 0 => some []
  | n + 1 => do
    let a ← readU64 v pos
    let l ← readU64s v (pos + 8) n
    some (a :: l)

variable {v : List UInt8} {pos a : ℕ} {l : List ℕ}

lemma HoldsAt.readU64 (h : HoldsAt v pos (leBytes 8 a)) (ha : a < 2 ^ 64) :
    readU64 v pos = some a := by
  have hread := h.readRange
  rw [length_leBytes] at hread
  rw [Cpp.readU64, hread, Option.map_some, leValue_leBytes (by omega)]

lemma HoldsAt.readU64s (h : HoldsAt v pos (u64Bytes l)) (hl : ∀ a ∈ l, a < 2 ^ 64) :
    readU64s v pos l.length = some l := by
  induction l generalizing pos with
  | nil => rfl
  | cons a l ih =>
    have htail := h.right
    rw [length_leBytes] at htail
    rw [length_cons, Cpp.readU64s, (h.left).readU64 (hl a mem_cons_self),
      ih htail fun b hb => hl b (mem_cons_of_mem a hb)]
    rfl

/-- One number of an array. -/
lemma HoldsAt.readU64_getElem (h : HoldsAt v pos (u64Bytes l)) (hl : ∀ a ∈ l, a < 2 ^ 64)
    (hi : l[i]? = some a) : Cpp.readU64 v (pos + 8 * i) = some a := by
  induction l generalizing pos i with
  | nil => cases hi
  | cons b l ih =>
    cases i with
    | zero =>
      obtain rfl : b = a := by simpa using hi
      exact h.left.readU64 (hl b mem_cons_self)
    | succ i =>
      have htail := h.right
      have := ih htail (fun b hb => hl b (mem_cons_of_mem _ hb)) (by simpa using hi)
      rwa [show pos + 8 * (i + 1) = pos + 8 + 8 * i by omega]

/-! ### Plain values, copied byte by byte -/

structure Pod (α : Type) where
  size : ℕ
  encode : α → List UInt8
  decode : List UInt8 → α
  length_encode : ∀ a, (encode a).length = size

namespace Pod

variable {α : Type} (p : Pod α) {a : α} {l l' : List α} {v : List UInt8} {pos : ℕ}

def Keeps (a : α) : Prop := p.decode (p.encode a) = a

def uint (n : ℕ) : Pod ℕ := ⟨n, leBytes n, leValue, length_leBytes n⟩

lemma keeps_uint {n a : ℕ} (h : a < 256 ^ n) : (uint n).Keeps a := leValue_leBytes h

lemma encode_uint_mod (n a : ℕ) : (uint n).encode (a % 256 ^ n) = (uint n).encode a := by
  show leBytes n (a % 256 ^ n) = leBytes n a
  induction n generalizing a with
  | zero => rfl
  | succ n ih =>
    have hlow : a % 256 ^ (n + 1) % 256 = a % 256 :=
      Nat.mod_mod_of_dvd a (Dvd.intro_left (256 ^ n) rfl)
    have hhigh : a % 256 ^ (n + 1) / 256 = a / 256 % 256 ^ n := by
      rw [Nat.pow_succ', Nat.mod_mul_right_div_self]
    rw [leBytes, leBytes, hlow, hhigh, ih]

def bytes (l : List α) : List UInt8 := l.flatMap p.encode

@[simp] lemma bytes_nil : p.bytes [] = [] := rfl

@[simp] lemma bytes_cons (a : α) (l : List α) : p.bytes (a :: l) = p.encode a ++ p.bytes l := rfl

@[simp] lemma length_bytes (l : List α) : (p.bytes l).length = p.size * l.length := by
  induction l with
  | nil => rfl
  | cons a l ih =>
    rw [bytes_cons, List.length_append, ih, p.length_encode, List.length_cons]
    exact add_comm _ _

def valueAt (v : List UInt8) (pos : ℕ) : Option α :=
  (readRange v pos (pos + p.size)).map p.decode

def arrayAt (v : List UInt8) (pos : ℕ) : ℕ → Option (List α)
  | 0 => some []
  | n + 1 => do
    let a ← p.valueAt v pos
    let l ← arrayAt v (pos + p.size) n
    return a :: l

variable {p}

lemma valueAt_of_holdsAt (h : HoldsAt v pos (p.encode a)) (ha : p.Keeps a) :
    p.valueAt v pos = some a := by
  have hread := h.readRange
  rw [p.length_encode] at hread
  rw [valueAt, hread, Option.map_some, ha]

lemma arrayAt_of_holdsAt (h : HoldsAt v pos (p.bytes l)) (hl : ∀ a ∈ l, p.Keeps a) :
    p.arrayAt v pos l.length = some l := by
  induction l generalizing pos with
  | nil => rfl
  | cons a l ih =>
    have htail := h.right
    rw [p.length_encode] at htail
    rw [List.length_cons, arrayAt, valueAt_of_holdsAt h.left (hl a List.mem_cons_self),
      ih htail fun b hb => hl b (List.mem_cons_of_mem a hb)]
    rfl

end Pod

end Rvanns.Cpp
