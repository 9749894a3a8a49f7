import PuzzleKit.Tree.Hash
import PuzzleKit.Bytes.Signed

/-! Elements that share parts, each with a hash slot.

An element is made from parts that exist before it, so the elements a program holds form a
directed acyclic graph in which one part may sit under many pairs. A store numbers its nodes
in the order they were made; a pair names two earlier nodes. Beside the store, each node has
a slot for its tree hash, empty until the hash is known.

`treeHash` fills slots without recursion. It keeps a stack and looks at its top: a top whose
slot is set is popped, an atom gets its slot and is popped, and a pair gets its slot from the
slots of its two parts when both are set, or else stays and has the parts with empty slots
pushed above it, the first part on top. The stack may hold one node several times. Equality
of two elements and their host hash code both read the tree hash. -/

namespace PuzzleKit

/-- A node of a store of `n` nodes: an atom, or a pair of two nodes of the store. -/
inductive Node (n : Nat) where
  | atom (bytes : List UInt8) (hint : Hint)
  | cons (first rest : Fin n)
  deriving DecidableEq, Repr

/-- A store of `n` nodes numbered in the order they were made: the parts of a pair were made
before it. -/
structure Store (n : Nat) where
  node : Fin n → Node n
  parts_earlier : ∀ {i f r}, node i = .cons f r → f < i ∧ r < i

/-- The hash slots of the nodes of a store of `n` nodes; `none` is a slot not yet filled. -/
abbrev Memo (n : Nat) := Fin n → Option (List UInt8)

namespace Memo

variable {n : Nat}

/-- The slots with the slot of node `i` filled with `h`. -/
def set (m : Memo n) (i : Fin n) (h : List UInt8) : Memo n :=
  fun j => if j = i then some h else m j

/-- The number of slots not yet filled. -/
def pending (m : Memo n) : Nat := (List.finRange n).countP fun i => (m i).isNone

@[simp] theorem set_same (m : Memo n) (i : Fin n) (h : List UInt8) : m.set i h i = some h := by
  simp [set]

@[simp] theorem set_ne (m : Memo n) {i j : Fin n} (hj : j ≠ i) (h : List UInt8) :
    m.set i h j = m j := by
  simp [set, hj]

/-- Filling an empty slot leaves every set slot as it was. -/
theorem set_keeps (m : Memo n) {i j : Fin n} (hi : ¬(m i).isSome) (hj : (m j).isSome)
    (h : List UInt8) : m.set i h j = m j := by
  have hji : j ≠ i := by
    rintro rfl
    exact hi hj
  exact set_ne m hji h

/-- A test that holds less often than another, and fails somewhere the other holds, counts
fewer members. -/
theorem countP_lt_of_imp {α : Type} {p q : α → Bool} {l : List α}
    (himp : ∀ x ∈ l, p x → q x) (hx : ∃ x ∈ l, q x ∧ ¬ p x) : l.countP p < l.countP q := by
  induction l with
  | nil => simp at hx
  | cons a l ih =>
    have hle := List.countP_mono_left fun y hy => himp y (List.mem_cons_of_mem a hy)
    have ha := himp a List.mem_cons_self
    simp only [List.countP_cons]
    obtain ⟨x, hx, hqx, hpx⟩ := hx
    rcases List.mem_cons.mp hx with rfl | hx
    · simp [hqx, hpx]
      omega
    · have hlt := ih (fun y hy => himp y (List.mem_cons_of_mem a hy)) ⟨x, hx, hqx, hpx⟩
      have hpq : (if p a = true then 1 else 0) ≤ if q a = true then 1 else 0 := by
        by_cases hp : p a <;> simp [hp, ha]
      omega

/-- Filling an empty slot leaves one fewer to fill. -/
theorem pending_set_lt (m : Memo n) {i : Fin n} (hi : m i = none) (h : List UInt8) :
    (m.set i h).pending < m.pending := by
  unfold pending
  apply countP_lt_of_imp
  · intro j _ hj
    by_cases hji : j = i
    · simp [hji] at hj
    · simpa [hji] using hj
  · exact ⟨i, List.mem_finRange i, by simp [hi]⟩

end Memo

namespace Store

variable {n : Nat} (s : Store n)

/-- The tree a node stands for, its shared parts written out in full. -/
def tree (i : Fin n) : Tree :=
  match _ : s.node i with
  | .atom b hint => .atom b hint
  | .cons f r => .cons (tree f) (tree r)
termination_by i.val
decreasing_by
  · exact (s.parts_earlier ‹s.node i = .cons f r›).1
  · exact (s.parts_earlier ‹s.node i = .cons f r›).2

theorem tree_of_atom {i : Fin n} {b : List UInt8} {hint : Hint}
    (h : s.node i = .atom b hint) :
    s.tree i = .atom b hint := by
  rw [tree]
  split <;> simp_all

theorem tree_of_cons {i f r : Fin n} (h : s.node i = .cons f r) :
    s.tree i = .cons (s.tree f) (s.tree r) := by
  rw [tree]
  split <;> simp_all

/-- How far the stack is from done, below the number of empty slots: a top with an empty
slot ranks by its number, which falls as its parts are pushed; a top with a set slot ranks
above all those, by the height of the stack, which falls as it is popped. -/
def stackRank (m : Memo n) : List (Fin n) → Nat × Nat
  | [] => (0, 0)
  | t :: rest => if (m t).isNone then (0, t.val) else (1, rest.length + 1)

/-- The parts of a pair whose slots are empty, the rest before the first, in the order the
stack receives them. -/
def todo (m : Memo n) (f r : Fin n) : List (Fin n) := [r, f].filter fun c => (m c).isNone

/-- A pair whose parts are both filled has both slots set. -/
theorem parts_set_of_todo_nil {m : Memo n} {f r : Fin n} (ht : todo m f r = []) :
    (m f).isSome ∧ (m r).isSome := by
  simp only [todo, List.filter_eq_nil_iff, List.mem_cons, List.not_mem_nil, or_false,
    Option.isNone_iff_eq_none] at ht
  constructor
  · exact Option.isSome_iff_ne_none.mpr (ht f (.inr rfl))
  · exact Option.isSome_iff_ne_none.mpr (ht r (.inl rfl))

theorem stackRank_pop_lt (m : Memo n) {i : Fin n} (hi : (m i).isSome) (stk : List (Fin n)) :
    Prod.Lex (· < ·) (· < ·) (stackRank m stk) (stackRank m (i :: stk)) := by
  have hi' : (m i).isNone = false := by simpa using hi
  have hstep : stackRank m (i :: stk) = (1, stk.length + 1) := by simp [stackRank, hi']
  rw [hstep]
  cases stk with
  | nil => exact Prod.Lex.left _ _ Nat.zero_lt_one
  | cons t rest =>
    by_cases ht : (m t).isNone
    · have hrank : stackRank m (t :: rest) = (0, t.val) := by simp [stackRank, ht]
      rw [hrank]
      exact Prod.Lex.left _ _ Nat.zero_lt_one
    · have hrank : stackRank m (t :: rest) = (1, rest.length + 1) := by simp [stackRank, ht]
      rw [hrank]
      exact Prod.Lex.right _ (by simp)

theorem stackRank_push_lt (m : Memo n) {i f r : Fin n} (hfr : f < i ∧ r < i)
    (hi : (m i).isSome = false) (ht : todo m f r ≠ []) (stk : List (Fin n)) :
    Prod.Lex (· < ·) (· < ·) (stackRank m ((todo m f r).reverse ++ i :: stk))
      (stackRank m (i :: stk)) := by
  have hi' : (m i).isNone = true := by simpa using hi
  obtain ⟨t, rest, hrev⟩ := List.exists_cons_of_ne_nil (List.reverse_ne_nil_iff.mpr ht)
  have ht_mem : t ∈ todo m f r := by
    rw [← List.mem_reverse, hrev]
    exact List.mem_cons_self
  have ht_of : (m t).isNone = true ∧ (t = r ∨ t = f) := by
    simp only [todo, List.mem_filter, List.mem_cons, List.not_mem_nil, or_false] at ht_mem
    exact ⟨ht_mem.2, ht_mem.1⟩
  have ht_lt : t.val < i.val := by
    rcases ht_of.2 with rfl | rfl
    · exact hfr.2
    · exact hfr.1
  rw [hrev]
  simp only [List.cons_append, stackRank, ht_of.1, hi', if_true]
  exact Prod.Lex.right _ ht_lt

/-- The stack pass: runs until the stack is empty and gives the slots as they are then. -/
def run (m : Memo n) : List (Fin n) → Memo n
  | [] => m
  | i :: stk =>
    if _ : (m i).isSome then run m stk
    else match _ : s.node i with
      | .atom b _ => run (m.set i (atomHash b)) stk
      | .cons f r =>
        if _ : todo m f r = [] then
          run (m.set i (pairHash ((m f).getD []) ((m r).getD []))) stk
        else run m ((todo m f r).reverse ++ i :: stk)
termination_by l => (m.pending, stackRank m l)
decreasing_by
  · exact Prod.Lex.right _ (stackRank_pop_lt m ‹(m i).isSome = true› stk)
  · exact Prod.Lex.left _ _ (Memo.pending_set_lt m (by simpa using ‹¬(m i).isSome = true›) _)
  · exact Prod.Lex.left _ _ (Memo.pending_set_lt m (by simpa using ‹¬(m i).isSome = true›) _)
  · exact Prod.Lex.right _ (stackRank_push_lt m (s.parts_earlier ‹s.node i = .cons f r›)
      (by simpa using ‹¬(m i).isSome = true›) ‹¬todo m f r = []› stk)

/-- The tree hash of a node and the slots after it: the node's own slot when it is set, and
otherwise its slot after the stack pass from it. -/
def treeHash (m : Memo n) (i : Fin n) : Option (List UInt8) × Memo n :=
  match m i with
  | some h => (some h, m)
  | none =>
    let m' := s.run m [i]
    (m' i, m')

/-- Whether two elements are equal: the same node, or equal tree hashes, the first hashed
first. -/
def equals (m : Memo n) (i j : Fin n) : Bool × Memo n :=
  if i = j then (true, m)
  else
    let (hi, m) := s.treeHash m i
    let (hj, m) := s.treeHash m j
    (hi == hj, m)

/-- The host hash code of an element: the first eight bytes of its tree hash, read
big-endian. -/
def hashCode (m : Memo n) (i : Fin n) : Nat × Memo n :=
  let (h, m) := s.treeHash m i
  (Bytes.ofBE ((h.getD []).take 8), m)

end Store

end PuzzleKit
