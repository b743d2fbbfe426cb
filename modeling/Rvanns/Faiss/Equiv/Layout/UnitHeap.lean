import Rvanns.Cpp.LinkedList
import Rvanns.Faiss.Layout.UnitHeap

/-!
# The unit heap keeps its list and its headers

`Holds n h l key` says that the heap `h` over `n` nodes holds the nodes of `l`, in this order, with
the keys `key`.
-/

namespace Rvanns.Faiss

open Cpp List Function Option KeysDescend

namespace UnitHeap

/-! ### Cells as functions -/

structure Cells (n : ℕ) (cells : List RorderListElement) (key : ℕ → ℕ) (prev next : ℕ → Option ℕ) :
    Prop where
  length : cells.length = n
  get : ∀ y < n, cells[y]? = some ⟨key y, prev y, next y⟩

variable {n : ℕ} {cells : List RorderListElement} {key : ℕ → ℕ} {prev next : ℕ → Option ℕ}

section

variable (h : Cells n cells key prev next)

include h

lemma Cells.read (hi : i < n) : Returns cells[i]? (· = ⟨key i, prev i, next i⟩) :=
  .of_eq (h.get i hi) rfl

lemma Cells.modifyAt (hi : i < n)
    (f : RorderListElement → RorderListElement) (key' : ℕ → ℕ) (prev' next' : ℕ → Option ℕ)
    (hself : f ⟨key i, prev i, next i⟩ = ⟨key' i, prev' i, next' i⟩)
    (hother : ∀ y < n, y ≠ i → key' y = key y ∧ prev' y = prev y ∧ next' y = next y) :
    Returns (modifyAt cells i f) (Cells n · key' prev' next') := by
  have hset : Cpp.modifyAt cells i f = some (cells.set i (f ⟨key i, prev i, next i⟩)) := by
    rw [Cpp.modifyAt, h.get i hi, map_some]
  refine .of_eq hset ⟨by simpa using h.length, fun y hy => ?_⟩
  rw [getElem?_set_of_lt (h.length.symm ▸ hi)]
  split
  · next hyi => rw [hself, hyi]
  · next hyi =>
    obtain ⟨h1, h2, h3⟩ := hother y hy (.symm hyi)
    rw [h.get y hy, h1, h2, h3]

lemma Cells.setLinks (hi : i < n) (p q : Option ℕ) :
    Returns (Cpp.modifyAt cells i fun e => { e with prev := p, next := q })
      (Cells n · key (Function.update prev i p) (Function.update next i q)) := by
  refine h.modifyAt hi _ _ _ _ ?_ ?_
  · rw [update_self, update_self]
  · exact fun y _ hy => ⟨rfl, update_of_ne hy _ _, update_of_ne hy _ _⟩

lemma Cells.setKey (hi : i < n) (k : ℕ) :
    Returns (Cpp.modifyAt cells i fun e => { e with key := k })
      (Cells n · (Function.update key i k) prev next) := by
  refine h.modifyAt hi _ _ _ _ ?_ ?_
  · rw [update_self]
  · exact fun y _ hy => ⟨update_of_ne hy _ _, rfl, rfl⟩

lemma Cells.setNext (at? : Option ℕ) (hat : ∀ i ∈ at?, i < n) (v : Option ℕ) :
    Returns (setNext cells at? v)
      (Cells n · key prev fun y => if at? = some y then v else next y) := by
  cases at? with
  | none => exact Returns.pure (by simpa using h)
  | some i =>
    refine h.modifyAt (hat i rfl) _ _ _ _ ?_ ?_
    · simp
    · intro y _ hy
      simp [Ne.symm hy]

lemma Cells.setPrev (at? : Option ℕ) (hat : ∀ i ∈ at?, i < n) (v : Option ℕ) :
    Returns (setPrev cells at? v)
      (Cells n · key (fun y => if at? = some y then v else prev y) next) := by
  cases at? with
  | none => exact Returns.pure (by simpa using h)
  | some i =>
    refine h.modifyAt (hat i rfl) _ _ _ _ ?_ ?_
    · simp
    · intro y _ hy
      simp [Ne.symm hy]

end

/-! ### Headers -/

def ends (run : List ℕ) : RorderHeadEnd := ⟨run.head?, run.getLast?⟩

def Headed (header : List RorderHeadEnd) (key : ℕ → ℕ) (l : List ℕ) : Prop :=
  ∀ k < header.length, header[k]? = some (ends (keyRun key k l))

variable {a b l : List ℕ} {x : ℕ} {header : List RorderHeadEnd}

lemma leaveRun_ends_append (hnd : (ra ++ x :: rb).Nodup)
    (hp : ra ≠ [] → p = ra.getLast?) (hq : rb ≠ [] → q = rb.head?) :
    leaveRun (ends (ra ++ x :: rb)) x p q = ends (ra ++ rb) := by
  obtain ⟨-, hxrb, hdisj⟩ := nodup_append.mp hnd
  have hxb := (nodup_cons.mp hxrb).1
  rcases ra with _ | ⟨y, r⟩ <;> rcases eq_nil_or_concat rb with rfl | ⟨s, z, rfl⟩
  · -- the node was alone
    simp [leaveRun, ends]
  · -- it was the first one
    have hxz : x ≠ z := by simp at hxb; exact hxb.2
    simp [leaveRun, ends, getLast?_cons, hxz, hq]
  · -- it was the last one
    have hyx : y ≠ x := hdisj y (by simp) x (by simp)
    simp [leaveRun, ends, getLast?_cons, hyx, hp]
  · have hyx : y ≠ x := hdisj y (by simp) x (by simp)
    have hyz : y ≠ z := hdisj y (by simp) z (by simp)
    have hzx : z ≠ x := by simp at hxb; exact .symm hxb.2
    simp [leaveRun, ends, getLast?_cons, hyx, hyz, hzx]

/-- **A node leaves its run**: the neighbours the code writes into the header are the ends of the
rest of the run. -/
theorem leaveRun_ends (hnd : (a ++ x :: b).Nodup) (hs : KeysDescend key (a ++ x :: b)) :
    leaveRun (ends (keyRun key (key x) (a ++ x :: b))) x a.getLast? b.head?
      = ends (keyRun key (key x) (a ++ b)) := by
  have hndr := hnd.filter fun y => decide (key y = key x)
  have hsx : KeysDescend key (a ++ [x]) :=
    List.Pairwise.sublist (List.Sublist.append_left (singleton_sublist.mpr (by simp)) a) hs
  have hxb : KeysDescend key (x :: b) := (append_iff.mp hs).2.1
  change (keyRun key (key x) (a ++ x :: b)).Nodup at hndr
  rw [keyRun_append, keyRun_cons_self] at hndr ⊢
  rw [keyRun_append]
  exact leaveRun_ends_append hndr hsx.getLast?_eq hxb.head?_eq

lemma joinRun_ends (x : ℕ) (r : List ℕ) : joinRun x (ends r) = ends (r ++ [x]) := by
  simp [joinRun, ends, head?_append]

lemma Headed.modifyAt (h : Headed header key l) (hk : k < header.length)
    (key' : ℕ → ℕ) (l' : List ℕ) (hself : f (ends (keyRun key k l)) = ends (keyRun key' k l'))
    (hother : ∀ j ≠ k, keyRun key' j l' = keyRun key j l) :
    Returns (modifyAt header k f) fun header' =>
      Headed header' key' l' ∧ header'.length = header.length := by
  have hset : Cpp.modifyAt header k f = some (header.set k (ends (keyRun key' k l'))) := by
    rw [Cpp.modifyAt, h k hk, map_some, hself]
  refine .of_eq hset ⟨fun j hj => ?_, by simp⟩
  rw [length_set] at hj
  rw [getElem?_set_of_lt hk]
  split
  · next hjk => rw [hjk]
  · next hjk => rw [h j hj, hother j (.symm hjk)]

lemma keyRun_remove (hj : j ≠ key x) (a b : List ℕ) :
    keyRun key j (a ++ b) = keyRun key j (a ++ x :: b) := by
  rw [keyRun_append, keyRun_append, keyRun_cons_of_ne (.symm hj)]

lemma Headed.leave (h : Headed header key (a ++ x :: b)) (hk : key x < header.length)
    (hnd : (a ++ x :: b).Nodup) (hs : KeysDescend key (a ++ x :: b)) :
    Returns (Cpp.modifyAt header (key x) (leaveRun · x a.getLast? b.head?)) fun header' =>
      Headed header' key (a ++ b) ∧ header'.length = header.length :=
  h.modifyAt hk _ _ (leaveRun_ends hnd hs) fun _ hj => keyRun_remove hj a b

lemma Headed.join (h : Headed header key (a ++ b)) (hk : k < header.length)
    (hx : x ∉ a ++ b) (hb : ∀ y ∈ b, key y < k) :
    Returns (Cpp.modifyAt header k (joinRun x)) fun header' =>
      Headed header' (Function.update key x k) (a ++ x :: b) ∧ header'.length = header.length := by
  have hold : ∀ y ∈ a ++ b, Function.update key x k y = key y := by
    intro y hy
    have hyx : y ≠ x := fun heq => hx (heq ▸ hy)
    exact update_of_ne hyx k key
  have ha : ∀ y ∈ a, Function.update key x k y = key y := fun y hy => hold y (by simp [hy])
  have hb' : ∀ y ∈ b, Function.update key x k y = key y := fun y hy => hold y (by simp [hy])
  refine h.modifyAt hk _ _ ?_ fun j hj => ?_
  · have hnil : keyRun key k b = [] := keyRun_eq_nil fun y hy => (hb y hy).ne
    have hcons : keyRun (Function.update key x k) k (x :: b) = [x] := by
      have hself := keyRun_cons_self (Function.update key x k) x b
      rw [update_self] at hself
      rw [hself, keyRun_congr hb', hnil]
    rw [joinRun_ends, keyRun_append, hnil, append_nil, keyRun_append, hcons, keyRun_congr ha]
  · have hne : Function.update key x k x ≠ j := by
      rw [update_self]
      exact .symm hj
    rw [keyRun_append, keyRun_cons_of_ne hne, keyRun_congr ha, keyRun_congr hb', keyRun_append]

lemma Headed.extend (h : Headed header key l) (hlt : ∀ y ∈ l, key y < header.length) (m : ℕ) :
    Headed (header ++ List.replicate m ⟨none, none⟩) key l := by
  intro k hk
  rw [length_append, length_replicate] at hk
  rcases lt_or_ge k header.length with hk' | hk'
  · rw [getElem?_append_left hk', h k hk']
  · rw [getElem?_append_right hk', getElem?_replicate, if_pos (by omega),
      keyRun_eq_nil fun y hy => by have := hlt y hy; omega]
    rfl

/-! ### What a heap holds -/

structure Holds (n : ℕ) (h : UnitHeap) (l : List ℕ) (key : ℕ → ℕ) : Prop where
  cells : ∃ prev next, Cells n h.linkedList key prev next ∧ IsDList prev next l
  nodup : l.Nodup
  lt : ∀ y ∈ l, y < n
  sorted : KeysDescend key l
  key_lt : ∀ y ∈ l, key y < h.header.length
  headed : Headed h.header key l
  top : h.top = l.head?

variable {h : UnitHeap}

lemma mem_append_of_getLast? (hy : y ∈ a.getLast?) : y ∈ a ++ x :: b :=
  mem_append_left _ (mem_of_getLast? hy)

lemma mem_append_of_head? (hy : y ∈ b.head?) : y ∈ a ++ x :: b :=
  mem_append_right _ (mem_cons_of_mem x (mem_of_head? hy))

variable (hc : Cells n cells key prev next)

include hc in
lemma Cells.unlink (hd : IsDList prev next (a ++ x :: b))
    (hnd : (a ++ x :: b).Nodup) (hlt : ∀ y ∈ a ++ x :: b, y < n) :
    Returns (UnitHeap.unlink cells a.getLast? b.head?) fun cells' =>
      ∃ prev' next', Cells n cells' key prev' next' ∧ IsDList prev' next' (a ++ b) ∧
        next' x = b.head? := by
  obtain ⟨hxnot, hnd'⟩ := nodup_cons.mp (nodup_middle.mp hnd)
  refine (hc.setNext _ (fun i hi => hlt i (mem_append_of_getLast? hi)) b.head?).bind fun c1 h1 => ?_
  refine (h1.setPrev _ (fun i hi => hlt i (mem_append_of_head? hi)) a.getLast?).mono fun c2 h2 => ?_
  refine ⟨_, _, h2, hd.remove hnd' (fun _ _ => rfl) (fun _ _ => rfl), ?_⟩
  rw [if_neg fun hlast => hxnot (mem_append_left b (mem_of_getLast? hlast))]
  exact (hd a x b rfl).2

lemma Holds.deleteElement (hh : Holds n h (a ++ x :: b) key) :
    Returns (h.deleteElement x) fun h' => Holds n h' (a ++ b) key ∧ h'.update = h.update := by
  obtain ⟨⟨prev, next, hc, hd⟩, hnd, hlt, hs, hkey, hheaded, htop⟩ := hh
  have hx : x < n := hlt x (by simp)
  have hsub : ∀ y ∈ a ++ b, y ∈ a ++ x :: b := fun y hy => by
    rcases mem_append.mp hy with hy | hy <;> simp [hy]
  obtain ⟨hxnot, hnd'⟩ := nodup_cons.mp (nodup_middle.mp hnd)
  obtain ⟨hprevx, hnextx⟩ := hd a x b rfl
  refine (hc.read hx).bind ?_
  rintro _ rfl
  rw [hprevx, hnextx]
  refine (hc.unlink hd hnd hlt).bind ?_
  rintro cells' ⟨prev', next', hc', hd', hself⟩
  refine (hheaded.leave (hkey x (by simp)) hnd hs).bind ?_
  rintro header' ⟨hheaded', hlen⟩
  refine (hc'.read hx).bind ?_
  rintro _ rfl
  -- the links of the node itself are not those of a list any more
  refine (hc'.setLinks hx none none).bind fun cells'' hc'' => ?_
  have hd'' : IsDList (Function.update prev' x none) (Function.update next' x none) (a ++ b) := by
    intro a' y b' heq
    have hyx : y ≠ x := fun h => hxnot (by rw [heq, ← h]; simp)
    rw [update_of_ne hyx, update_of_ne hyx]
    exact hd' a' y b' heq
  refine .pure ⟨⟨⟨_, _, hc'', hd''⟩, hnd', fun y hy => hlt y (hsub y hy), hs.remove,
    fun y hy => hlen ▸ hkey y (hsub y hy), hheaded', ?_⟩, rfl⟩
  rw [hself, htop]
  cases a with
  | nil => simp
  | cons y a =>
    have hyx : y ≠ x := fun h => hxnot (by simp [h])
    simp [hyx]

/-! ### Raising a key -/

lemma isDList_linkIn (hd : IsDList prev next (a ++ b)) (hnd : (a ++ b).Nodup) (hx : x ∉ a ++ b) :
    IsDList (fun y => if b.head? = some y then some x else Function.update prev x a.getLast? y)
      (fun y => if a.getLast? = some y then some x else Function.update next x b.head? y)
      (a ++ x :: b) := by
  have hne : ∀ y ∈ a ++ b, y ≠ x := fun y hy heq => hx (heq ▸ hy)
  have hhead : b.head? ≠ some x := fun h => hne x (mem_append_right a (mem_of_head? h)) rfl
  have hlast : a.getLast? ≠ some x := fun h => hne x (mem_append_left b (mem_of_getLast? h)) rfl
  refine hd.insert hnd hx (fun y hy => ?_) (fun y hy => ?_) ?_ ?_
  · rw [update_of_ne (hne y hy)]
  · rw [update_of_ne (hne y hy)]
  · rw [if_neg hhead, update_self]
  · rw [if_neg hlast, update_self]

include hc in
lemma Cells.moveToFront {a₁ a₂ : List ℕ} {head : ℕ}
    (hd : IsDList prev next (a₁ ++ head :: a₂ ++ x :: b))
    (hnd : (a₁ ++ head :: a₂ ++ x :: b).Nodup) (hlt : ∀ y ∈ a₁ ++ head :: a₂ ++ x :: b, y < n) :
    Returns (moveToFront cells x head (a₁ ++ head :: a₂).getLast? b.head?) fun cells' =>
      ∃ prev' next', Cells n cells' key prev' next' ∧
        IsDList prev' next' (a₁ ++ x :: (head :: a₂ ++ b)) := by
  obtain ⟨last, hlast⟩ : ∃ last, (a₁ ++ head :: a₂).getLast? = some last := by
    rw [getLast?_append_cons]
    exact ⟨_, rfl⟩
  have hx : x < n := hlt x (by simp)
  have hhead : head < n := hlt head (by simp)
  obtain ⟨hxnot, hnd'⟩ := nodup_cons.mp (nodup_middle.mp hnd)
  rw [append_assoc] at hxnot hnd'
  rw [hlast]
  refine .bind_eq rfl ?_
  have hunlink := hc.unlink hd hnd hlt
  rw [hlast] at hunlink
  refine hunlink.bind ?_
  rintro c1 ⟨prev1, next1, h1, hd1, -⟩
  rw [append_assoc] at hd1
  refine (h1.read hhead).bind ?_
  rintro _ rfl
  rw [(hd1 a₁ head (a₂ ++ b) (by simp)).1]
  refine (h1.setLinks hx a₁.getLast? (some head)).bind fun c2 h2 => ?_
  refine (h2.setPrev (some head) (fun i hi => by cases hi; exact hhead) (some x)).bind
    fun c3 h3 => ?_
  refine (h3.setNext _ (fun i hi => ?_) (some x)).mono fun c4 h4 => ?_
  · exact hlt i (by simp [mem_of_getLast? hi])
  · exact ⟨_, _, h4, isDList_linkIn (b := head :: a₂ ++ b) hd1 hnd' hxnot⟩

lemma growTo_spec (h : Headed header key l) (hlt : ∀ y ∈ l, key y < header.length) (k : ℕ) :
    Headed (growTo header k) key l ∧ k < (growTo header k).length ∧
      header.length ≤ (growTo header k).length := by
  unfold growTo
  split
  · refine ⟨h.extend hlt _, ?_, ?_⟩ <;> rw [length_append, length_replicate] <;> omega
  · exact ⟨h, by omega, le_rfl⟩

lemma Holds.of_insert (hc : Cells n h.linkedList (Function.update key x k) prev next)
    (hd : IsDList prev next (a ++ x :: b)) (hnd : (a ++ b).Nodup) (hx : x ∉ a ++ b) (hxn : x < n)
    (hlt : ∀ y ∈ a ++ b, y < n) (hs : KeysDescend key (a ++ b)) (ha : ∀ y ∈ a, k ≤ key y)
    (hb : ∀ y ∈ b, key y < k) (hk : k < h.header.length)
    (hkey : ∀ y ∈ a ++ b, key y < h.header.length)
    (hheaded : Headed h.header (Function.update key x k) (a ++ x :: b))
    (htop : h.top = (a ++ x :: b).head?) : Holds n h (a ++ x :: b) (Function.update key x k) := by
  have hcases : ∀ y ∈ a ++ x :: b, y = x ∨ y ∈ a ++ b ∧ y ≠ x := by
    intro y hy
    by_cases hyx : y = x
    · exact .inl hyx
    · refine .inr ⟨?_, hyx⟩
      simpa [hyx] using hy
  refine ⟨⟨prev, next, hc, hd⟩, nodup_middle.mpr (nodup_cons.mpr ⟨hx, hnd⟩), ?_,
    hs.insert hx ha hb, ?_, hheaded, htop⟩
  · intro y hy
    rcases hcases y hy with rfl | ⟨hy, -⟩
    · exact hxn
    · exact hlt y hy
  · intro y hy
    rcases hcases y hy with rfl | ⟨hy, hyx⟩
    · rwa [update_self]
    · rw [update_of_ne hyx]
      exact hkey y hy

include hc in
lemma Cells.toFront {a₁ a₂ : List ℕ} {head : ℕ}
    (hd : IsDList prev next (a₁ ++ a₂ ++ x :: b)) (hnd : (a₁ ++ a₂ ++ x :: b).Nodup)
    (hlt : ∀ y ∈ a₁ ++ a₂ ++ x :: b, y < n) (hhead : (a₂ ++ [x]).head? = some head) :
    Returns (if head = x then some cells
        else UnitHeap.moveToFront cells x head (a₁ ++ a₂).getLast? b.head?) fun cells' =>
      ∃ prev' next', Cells n cells' key prev' next' ∧
        IsDList prev' next' (a₁ ++ x :: (a₂ ++ b)) := by
  cases a₂ with
  | nil =>
    cases hhead
    rw [if_pos rfl]
    exact .pure ⟨prev, next, hc, by simpa using hd⟩
  | cons y a₂ =>
    cases hhead
    have hne : head ≠ x := by
      rintro rfl
      exact disjoint_of_nodup_append hnd (by simp) mem_cons_self
    rw [if_neg hne]
    exact hc.moveToFront hd hnd hlt

lemma head?_toFront (hnd : (a₁ ++ a₂ ++ x :: b).Nodup)
    (ha₁ : ∀ y ∈ a₁, key x < key y) (ha₂ : ∀ y ∈ a₂, key y = key x)
    (ht : (a₁ ++ a₂ ++ x :: b).head? = some t) :
    (if Function.update key x (key x + 1) t < key x + 1 then some x else some t)
      = (a₁ ++ x :: (a₂ ++ b)).head? := by
  have hxnot := (nodup_cons.mp (nodup_middle.mp hnd)).1
  cases a₁ with
  | cons y a₁ =>
    cases ht
    have htx : t ≠ x := fun heq => hxnot (by simp [heq])
    have hlt := ha₁ t (by simp)
    rw [update_of_ne htx, if_neg (by omega)]
    rfl
  | nil =>
    cases a₂ with
    | nil =>
      cases ht
      rw [update_self, if_neg (by omega)]
      rfl
    | cons y a₂ =>
      cases ht
      have htx : t ≠ x := fun heq => hxnot (by simp [heq])
      rw [update_of_ne htx, ha₂ t (by simp), if_pos (by omega)]
      rfl

lemma Holds.incrementKey (hh : Holds n h l key) (hx : x ∈ l) :
    Returns (h.incrementKey x) fun h' => ∃ l', l'.Perm l ∧
      Holds n h' l' (Function.update key x (key x + 1)) ∧ h'.update = h.update := by
  obtain ⟨a, b, rfl⟩ := append_of_mem hx
  obtain ⟨⟨prev, next, hc, hd⟩, hnd, hlt, hs, hkey, hheaded, htop⟩ := hh
  -- the list after the move is `a₁ ++ x :: (a₂ ++ b)`
  obtain ⟨a₁, a₂, rfl, ha₁, ha₂⟩ := hs.split_before
  have hxn : x < n := hlt x (by simp)
  obtain ⟨hxnot, hnd'⟩ := nodup_cons.mp (nodup_middle.mp hnd)
  rw [append_assoc] at hxnot hnd'
  have hsub : ∀ y ∈ a₁ ++ (a₂ ++ b), y ∈ a₁ ++ a₂ ++ x :: b := by
    intro y hy
    simp only [mem_append, mem_cons] at hy ⊢
    tauto
  have hlow : ∀ y ∈ a₂ ++ b, key y < key x + 1 := by
    intro y hy
    rcases mem_append.mp hy with hy | hy
    · rw [ha₂ y hy]
      omega
    · have := (cons_iff.mp (append_iff.mp hs).2.1).1 y hy
      omega
  obtain ⟨hprevx, hnextx⟩ := hd (a₁ ++ a₂) x b rfl
  have hrun : keyRun key (key x) (a₁ ++ a₂ ++ x :: b) = a₂ ++ x :: keyRun key (key x) b := by
    rw [keyRun_append, keyRun_append, keyRun_eq_nil fun y hy => (ha₁ y hy).ne', keyRun_cons_self]
    congr 1
    exact filter_eq_self.mpr fun y hy => by simpa using ha₂ y hy
  refine (hc.read hxn).bind ?_
  rintro _ rfl
  refine .bind (.of_eq (hheaded (key x) (hkey x (by simp))) rfl) ?_
  rintro _ rfl
  rw [hrun]
  rw [hprevx, hnextx]
  obtain ⟨head, hhead⟩ : ∃ head, (a₂ ++ [x]).head? = some head := by cases a₂ <;> exact ⟨_, rfl⟩
  have hfirst : (ends (a₂ ++ x :: keyRun key (key x) b)).first = some head := by
    cases a₂ <;> exact hhead
  refine .bind_eq hfirst ?_
  refine (hc.toFront hd hnd hlt hhead).bind ?_
  rintro cells' ⟨prev', next', hc', hd'⟩
  refine .bind (hc'.modifyAt hxn _ (Function.update key x (key x + 1)) prev' next' (by simp)
    fun y _ hy => by simp [hy]) fun cells'' hc'' => ?_
  refine (hheaded.leave (hkey x (by simp)) hnd hs).bind ?_
  rintro header' ⟨hheaded', hlen⟩
  rw [append_assoc] at hheaded'
  obtain ⟨hgrown, hk, hle⟩ := growTo_spec hheaded'
    (fun y hy => hlen ▸ hkey y (hsub y hy)) (key x + 1)
  refine (hgrown.join hk hxnot hlow).bind ?_
  rintro header'' ⟨hheaded'', hlen''⟩
  obtain ⟨t, ht⟩ : ∃ t, (a₁ ++ a₂ ++ x :: b).head? = some t := by
    cases a₁ <;> cases a₂ <;> exact ⟨_, rfl⟩
  refine .bind_eq (htop.trans ht) ?_
  refine (hc''.read (hlt t (mem_of_head? ht))).bind ?_
  rintro _ rfl
  refine .pure ⟨a₁ ++ x :: (a₂ ++ b), ?_, Holds.of_insert hc'' hd' hnd' hxnot hxn
    (fun y hy => hlt y (hsub y hy)) ?_ (fun y hy => ha₁ y hy) hlow ?_ ?_ hheaded'' ?_, rfl⟩
  · rw [append_assoc]
    exact List.Perm.append_left a₁ perm_middle.symm
  · rw [← append_assoc]
    exact hs.remove
  · rw [hlen'']
    exact hk
  · intro y hy
    have := hkey y (hsub y hy)
    show key y < header''.length
    omega
  · rw [htop, ht]
    exact head?_toFront hnd ha₁ ha₂ ht

/-! ### Lowering the key at the top -/

lemma key_lt_of_last (hnd : (a ++ x :: b).Nodup) (hs : KeysDescend key (a ++ x :: b))
    (hlast : (keyRun key p (a ++ x :: b)).getLast? = some x) (hz : z ∈ b) : key z < key x := by
  have hp : key x = p := (mem_keyRun.mp (mem_of_getLast? hlast)).2
  subst hp
  have hle := (cons_iff.mp (append_iff.mp hs).2.1).1 z hz
  refine lt_of_le_of_ne hle fun heq => ?_
  -- otherwise the run would end later, and not in `x`
  have hzrun : z ∈ keyRun key (key x) b := mem_keyRun.mpr ⟨hz, heq⟩
  obtain ⟨y, r, hyr⟩ := exists_cons_of_ne_nil (ne_nil_of_mem hzrun)
  rw [keyRun_append, keyRun_cons_self, hyr, append_cons, getLast?_append_cons, ← hyr] at hlast
  have hxb := (mem_keyRun.mp (mem_of_getLast? hlast)).1
  exact (nodup_cons.mp (nodup_append.mp hnd).2.1).1 hxb

lemma Holds.findRun (hh : Holds n h l key) (newkey : ℤ) (hy : y ∈ l) (hle : newkey ≤ key y) :
    Returns (whileLoop (h.runTurn newkey) (h.header.length + 1) (key y)) fun p =>
      ∃ a s b, l = a ++ s :: b ∧ p < h.header.length ∧ (keyRun key p l).getLast? = some s ∧
        newkey ≤ key s ∧ ∀ z ∈ b, (key z : ℤ) < newkey := by
  obtain ⟨⟨prev, next, hc, hd⟩, hnd, hlt, hs, hkey, hheaded, -⟩ := hh
  refine .whileLoop (P := fun p => ∃ y ∈ l, key y = p ∧ newkey ≤ p) id ?_ ⟨y, hy, rfl, hle⟩
    (Nat.lt_succ_of_lt (hkey y hy))
  rintro p ⟨y, hy, rfl, hle⟩
  have hmem : y ∈ keyRun key (key y) l := mem_keyRun.mpr ⟨hy, rfl⟩
  obtain ⟨s, hsecond⟩ : ∃ s, (keyRun key (key y) l).getLast? = some s :=
    ne_none_iff_exists'.mp (getLast?_eq_none_iff.not.mpr (ne_nil_of_mem hmem))
  obtain ⟨hsl, hks⟩ := mem_keyRun.mp (mem_of_getLast? hsecond)
  obtain ⟨a, b, rfl⟩ := append_of_mem hsl
  refine .bind_eq (hheaded (key y) (hkey y hy)) ?_
  refine .bind_eq (show (ends _).second = some s from hsecond) ?_
  refine (hc.read (hlt s hsl)).bind ?_
  rintro _ rfl
  rw [(hd a s b rfl).2]
  cases b with
  | nil =>
    refine .pure ⟨a, s, [], rfl, hkey y hy, hsecond, ?_, by simp⟩
    rw [hks]
    exact hle
  | cons t b =>
    refine (hc.read (hlt t (by simp))).bind ?_
    rintro _ rfl
    refine .pure ?_
    dsimp only
    split
    · next hlet =>
      refine ⟨⟨t, by simp, rfl, hlet⟩, ?_⟩
      show key t < key y
      rw [← hks]
      exact key_lt_of_last hnd hs hsecond (by simp)
    · next hgt =>
      refine ⟨a, s, t :: b, rfl, hkey y hy, hsecond, by rw [hks]; exact hle, fun z hz => ?_⟩
      have hsb := (cons_iff.mp (append_iff.mp hs).2.1).2
      rcases mem_cons.mp hz with rfl | hz
      · omega
      · have := (cons_iff.mp hsb).1 z hz
        omega

variable {b₁ b₂ : List ℕ} {s nx k p : ℕ} {u : ℤ}

include hc in
lemma Cells.linkBehind (hd : IsDList prev next (b₁ ++ b₂))
    (hnd : (b₁ ++ b₂).Nodup) (hx : x ∉ b₁ ++ b₂) (hxn : x < n) (hlt : ∀ y ∈ b₁ ++ b₂, y < n)
    (hlast : b₁.getLast? = some s) :
    Returns (UnitHeap.linkBehind cells x s b₂.head?) fun cells' =>
      ∃ prev' next', Cells n cells' key prev' next' ∧ IsDList prev' next' (b₁ ++ x :: b₂) := by
  have hsn : s < n := hlt s (mem_append_left _ (mem_of_getLast? hlast))
  have hlink := isDList_linkIn hd hnd hx
  rw [hlast] at hlink
  refine (hc.setLinks hxn (some s) b₂.head?).bind fun c1 h1 => ?_
  refine (h1.setNext (some s) (fun i hi => by cases hi; exact hsn) (some x)).bind fun c2 h2 => ?_
  refine (h2.setPrev _ (fun i hi => ?_) (some x)).mono fun c3 h3 => ⟨_, _, h3, hlink⟩
  exact hlt i (mem_append_right _ (mem_of_head? hi))

lemma Holds.moveTop (hh : Holds n h (x :: (b₁ ++ b₂)) key) (hnx : b₁.head? = some nx)
    (hlast : b₁.getLast? = some s) (hp : p < h.header.length)
    (hrun : (keyRun key p (x :: (b₁ ++ b₂))).getLast? = some s) (hk : ∀ y ∈ b₁, k ≤ key y)
    (hb₂ : ∀ y ∈ b₂, key y < k) (hlow : k < key x) (hu : x < h.update.length) (u : ℤ) :
    Returns (h.moveTop x nx (key x) k p u) fun h' =>
      Holds n h' (b₁ ++ x :: b₂) (Function.update key x k) ∧
        h'.update = h.update.set x (some (u.tdiv 2)) := by
  obtain ⟨⟨prev, next, hc, hd⟩, hnd, hlt, hs, hkey, hheaded, -⟩ := hh
  obtain ⟨hxnot, hnd'⟩ := nodup_cons.mp hnd
  have hxn : x < n := hlt x (by simp)
  have hhead : (b₁ ++ b₂).head? = some nx := by
    rw [head?_append, hnx]
    rfl
  have hlt' : ∀ y ∈ b₁ ++ b₂, y < n := fun y hy => hlt y (mem_cons_of_mem x hy)
  have hnxn : nx < n := hlt' nx (mem_of_head? hhead)
  have hsn : s < n := hlt' s (mem_append_left _ (mem_of_getLast? hlast))
  refine (hc.setPrev (some nx) (fun i hi => by cases hi; exact hnxn) none).bind fun c1 h1 => ?_
  have hd1 : IsDList (fun y => if some nx = some y then none else prev y) next (b₁ ++ b₂) := by
    refine IsDList.remove (a := []) (b := b₁ ++ b₂) hd hnd' (fun y _ => by simp) fun y _ => ?_
    rw [hhead]
    rfl
  refine .bind_eq (hheaded p hp) ?_
  refine .bind_eq (show (ends _).second = some s from hrun) ?_
  refine (h1.read hsn).bind ?_
  rintro _ rfl
  have hnexts : next s = b₂.head? := by
    obtain ⟨b₁', rfl⟩ := getLast?_eq_some_iff.mp hlast
    exact (hd1 b₁' s b₂ (by simp)).2
  rw [hnexts]
  refine (h1.linkBehind hd1 hnd' hxnot hxn hlt' hlast).bind ?_
  rintro c2 ⟨prev2, next2, h2, hd2⟩
  -- the node at the top is the first one of its run
  have hfirst : (ends (keyRun key (key x) (x :: (b₁ ++ b₂)))).first = some x := by
    rw [keyRun_cons_self]
    rfl
  refine .bind (hheaded.modifyAt (hkey x (by simp)) key (b₁ ++ b₂) ?_
    fun j hj => keyRun_remove (a := []) hj _) ?_
  · have hleave := leaveRun_ends (a := []) hnd hs
    rw [nil_append, nil_append] at hleave
    rw [← hleave, leaveRun, hfirst, if_pos rfl, hhead]
  rintro header1 ⟨hheaded1, hlen1⟩
  refine (h2.setKey hxn k).bind fun c3 h3 => ?_
  refine .bind_eq (wr_of_lt hu _) ?_
  have hkh : k < h.header.length := hlow.trans (hkey x (by simp))
  refine (hheaded1.join (hlen1.symm ▸ hkh) hxnot hb₂).bind ?_
  rintro header2 ⟨hheaded2, hlen2⟩
  refine .pure ⟨Holds.of_insert h3 hd2 hnd' hxnot hxn hlt'
    (cons_iff.mp hs).2 hk hb₂ ?_ ?_ hheaded2 ?_, rfl⟩
  · show k < header2.length
    omega
  · intro y hy
    have := hkey y (mem_cons_of_mem x hy)
    show key y < header2.length
    omega
  · rw [head?_append, hnx]
    rfl

lemma tdiv_two_bounds (hu : u < 0) : u ≤ u.tdiv 2 ∧ u.tdiv 2 ≤ 0 := by
  have hneg : u.tdiv 2 = -((-u) / 2) := by
    rw [← Int.tdiv_eq_ediv_of_nonneg (by omega), Int.neg_tdiv, Int.neg_neg]
  omega

structure Lowered (n : ℕ) (h h' : UnitHeap) (x k : ℕ) (u : ℤ) (l : List ℕ) (key : ℕ → ℕ) :
    Prop where
  holds : ∃ l', l'.Perm l ∧ Holds n h' l' (Function.update key x k)
  lower : k < key x
  newkey : (k : ℤ) = key x + u - u.tdiv 2
  update : h'.update = h.update.set x (some (u.tdiv 2))
  top : h'.top ≠ some x

/-- **`DecreaseTop` leaves the heap alone or lowers the key of the top node**, which then is not at
the top any more. -/
theorem Holds.decreaseTop (hh : Holds n h (x :: b) key) (hu : h.update[x]? = some (some u))
    (hneg : u < 0) (hval : 0 ≤ key x + u) :
    Returns h.decreaseTop fun h' => h' = h ∨ ∃ k, Lowered n h h' x k u (x :: b) key := by
  obtain ⟨⟨prev, next, hc, hd⟩, hnd, hlt, hs, hkey, -, htop⟩ := id hh
  obtain ⟨hhalf, hhalf0⟩ := tdiv_two_bounds hneg
  have hulen := lt_length hu
  refine .bind_eq htop ?_
  refine (hc.read (hlt x (by simp))).bind ?_
  rintro _ rfl
  rw [(hd [] x b rfl).2]
  cases b with
  | nil => exact .pure (.inl rfl)
  | cons nx b =>
    refine .bind_eq hu ?_
    refine .bind_eq rfl ?_
    refine (hc.read (hlt nx (by simp))).bind ?_
    rintro _ rfl
    dsimp only
    split
    · next hlow =>
      have hnxle : key nx ≤ key x := (cons_iff.mp hs).1 nx (by simp)
      refine (hh.findRun _ (y := x) (by simp) (by omega)).bind ?_
      rintro p ⟨a, s, c, heq, hp, hrun, hle, hc'⟩
      -- the run that was found is not the one of the top node
      have hane : a ≠ [] := by
        rintro rfl
        rw [nil_append, List.cons.injEq] at heq
        have := hc' nx (by simp [← heq.2])
        omega
      obtain ⟨x', a, rfl⟩ := exists_cons_of_ne_nil hane
      rw [cons_append, List.cons.injEq] at heq
      obtain ⟨rfl, heq⟩ := heq
      have hsplit : nx :: b = (a ++ [s]) ++ c := by simp [heq]
      obtain ⟨k, hk⟩ : ∃ k : ℕ, (k : ℤ) = key x + u - u.tdiv 2 :=
        ⟨(key x + u - u.tdiv 2).toNat, by omega⟩
      rw [← hk]
      refine .bind_eq (show Int.toNat? k = some k from rfl) ?_
      have hnx : (a ++ [s]).head? = some nx := by
        cases a with
        | nil => simp at heq; simp [heq.1]
        | cons y a => simp at heq; simp [heq.1]
      have hk₁ : ∀ y ∈ a ++ [s], k ≤ key y := by
        intro y hy
        have hs' := (cons_iff.mp hs).2
        rw [heq] at hs'
        have hsy : key s ≤ key y := forall_mem_concat.mpr
          ⟨fun y hy => (append_iff.mp hs').2.2 y hy s (by simp), le_rfl⟩ y hy
        omega
      have hk₂ : ∀ y ∈ c, key y < k := by
        intro y hy
        have := hc' y hy
        omega
      rw [hsplit] at hh hrun
      refine (hh.moveTop hnx (by simp) hp hrun hk₁ hk₂ (by omega) hulen u).mono ?_
      rintro h' ⟨hholds, hupdate⟩
      refine .inr ⟨k, ⟨_, ?_, hholds⟩, by omega, hk, hupdate, ?_⟩
      · rw [hsplit]
        exact perm_middle
      · rw [hholds.top, head?_append, hnx]
        intro htx
        have hxnx : nx = x := some.inj htx
        exact (nodup_cons.mp hnd).1 (by simp [hxnx])
    · exact .pure (.inl rfl)

end UnitHeap

end Rvanns.Faiss
