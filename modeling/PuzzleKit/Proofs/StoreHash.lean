import PuzzleKit.Tree.Store

/-!
# The stack pass computes the tree hash

The slots of a store are sound when every set slot holds the tree hash of its node. The stack
pass keeps the slots sound: an atom's slot gets the hash of its bytes, and a pair's slot is
set only when both parts are set, so from their sound slots. It never changes a set slot, and
it pops a node only when its slot is set, so every node it was given ends with its slot set.
Hence the tree hash of a node, from sound slots, is the hash of its tree; equality and the
hash code of elements read only that, and the hash of a tree reads bytes and shape alone.
-/

namespace PuzzleKit

namespace Store

variable {n : Nat} (s : Store n)

/-- Every set slot holds the tree hash of its node. -/
def Sound (m : Memo n) : Prop := ∀ i h, m i = some h → h = (s.tree i).hash

variable {s}

theorem Sound.set {m : Memo n} (hm : s.Sound m) {i : Fin n} {h : List UInt8}
    (hh : h = (s.tree i).hash) : s.Sound (m.set i h) := by
  intro j x hj
  by_cases hji : j = i
  · subst hji
    simp only [Memo.set_same, Option.some.injEq] at hj
    rw [← hj, hh]
  · rw [Memo.set_ne m hji] at hj
    exact hm j x hj

theorem Sound.get {m : Memo n} (hm : s.Sound m) {i : Fin n} (hi : (m i).isSome) :
    m i = some (s.tree i).hash := by
  obtain ⟨x, hx⟩ := Option.isSome_iff_exists.mp hi
  rw [hx, hm i x hx]

variable (s)

theorem run_keeps (m : Memo n) (stk : List (Fin n)) {j : Fin n} (hj : (m j).isSome) :
    s.run m stk j = m j := by
  fun_induction s.run m stk with
  | case1 => rfl
  | case2 m i stk hi ih => exact ih hj
  | case3 m i stk hi b hint hn ih =>
    rw [ih (by rwa [Memo.set_keeps m hi hj]), Memo.set_keeps m hi hj]
  | case4 m i stk hi f r hn ht ih =>
    rw [ih (by rwa [Memo.set_keeps m hi hj]), Memo.set_keeps m hi hj]
  | case5 m i stk hi f r hn ht ih => exact ih hj

theorem run_sound {m : Memo n} (hm : s.Sound m) (stk : List (Fin n)) :
    s.Sound (s.run m stk) ∧ ∀ j ∈ stk, (s.run m stk j).isSome := by
  fun_induction s.run m stk with
  | case1 => exact ⟨hm, by simp⟩
  | case2 m i stk hi ih =>
    obtain ⟨hsound, hset⟩ := ih hm
    refine ⟨hsound, ?_⟩
    intro j hj
    rcases List.mem_cons.mp hj with rfl | hj
    · rwa [run_keeps s m stk hi]
    · exact hset j hj
  | case3 m i stk hi b hint hn ih =>
    have hm' := hm.set (h := atomHash b) (by rw [tree_of_atom s hn]; rfl)
    obtain ⟨hsound, hset⟩ := ih hm'
    refine ⟨hsound, ?_⟩
    intro j hj
    rcases List.mem_cons.mp hj with rfl | hj
    · rw [run_keeps s _ stk (by simp)]
      simp
    · exact hset j hj
  | case4 m i stk hi f r hn ht ih =>
    obtain ⟨hf, hr⟩ := parts_set_of_todo_nil ht
    have hm' := hm.set (i := i) (h := pairHash ((m f).getD []) ((m r).getD [])) (by
      rw [tree_of_cons s hn, hm.get hf, hm.get hr]
      rfl)
    obtain ⟨hsound, hset⟩ := ih hm'
    refine ⟨hsound, ?_⟩
    intro j hj
    rcases List.mem_cons.mp hj with rfl | hj
    · rw [run_keeps s _ stk (by simp)]
      simp
    · exact hset j hj
  | case5 m i stk hi f r hn ht ih =>
    obtain ⟨hsound, hset⟩ := ih hm
    exact ⟨hsound, fun j hj => hset j (List.mem_append_right _ hj)⟩

theorem treeHash_sound {m : Memo n} (hm : s.Sound m) (i : Fin n) :
    (s.treeHash m i).1 = some (s.tree i).hash ∧ s.Sound (s.treeHash m i).2 := by
  cases hmi : m i with
  | some h =>
    simp only [treeHash, hmi]
    exact ⟨by rw [hm i h hmi], hm⟩
  | none =>
    simp only [treeHash, hmi]
    obtain ⟨hsound, hset⟩ := s.run_sound hm [i]
    exact ⟨hsound.get (hset i List.mem_cons_self), hsound⟩

theorem equals_sound {m : Memo n} (hm : s.Sound m) (i j : Fin n) :
    (s.equals m i j).1 = decide ((s.tree i).hash = (s.tree j).hash) ∧
      s.Sound (s.equals m i j).2 := by
  by_cases hij : i = j
  · subst hij
    simp [equals, hm]
  · obtain ⟨hi, hm1⟩ := s.treeHash_sound hm i
    rcases h1 : s.treeHash m i with ⟨a, m1⟩
    rw [h1] at hi hm1
    obtain ⟨hj, hm2⟩ := s.treeHash_sound hm1 j
    rcases h2 : s.treeHash m1 j with ⟨b, m2⟩
    rw [h2] at hj hm2
    simp only at hi hj hm1 hm2
    simp only [equals, hij, if_false, h1, h2, hi, hj]
    refine ⟨?_, hm2⟩
    simp only [Bool.beq_eq_decide_eq, Option.some.injEq]

theorem hashCode_sound {m : Memo n} (hm : s.Sound m) (i : Fin n) :
    (s.hashCode m i).1 = Bytes.ofBE ((s.tree i).hash.take 8) ∧ s.Sound (s.hashCode m i).2 := by
  obtain ⟨hi, hm1⟩ := s.treeHash_sound hm i
  rcases h1 : s.treeHash m i with ⟨a, m1⟩
  rw [h1] at hi hm1
  simp only at hi hm1
  constructor
  · simp [hashCode, h1, hi]
  · simpa [hashCode, h1] using hm1

/-- The stack pass agrees with the recursive tree hash: from slots that each hold the tree hash
of their node, over any store in which nodes share parts, the tree hash of a node is the hash
of its tree and the slots it fills hold tree hashes too. So whether two elements are equal, and
the hash code of an element, depend on the bytes and shape of their trees alone, never on
hints or on how parts are shared. -/
theorem treeHash_agrees (m : Memo n) (hm : s.Sound m) :
    (∀ i, (s.treeHash m i).1 = some (s.tree i).hash ∧ s.Sound (s.treeHash m i).2) ∧
    ∀ {n' : Nat} (s' : Store n') (m' : Memo n'), s'.Sound m' →
      ∀ i j i' j', (s.tree i).same (s'.tree i') = true → (s.tree j).same (s'.tree j') = true →
        (s.equals m i j).1 = (s'.equals m' i' j').1 ∧ (s.hashCode m i).1 = (s'.hashCode m' i').1 := by
  refine ⟨s.treeHash_sound hm, ?_⟩
  intro n' s' m' hm' i j i' j' hi hj
  rw [(s.equals_sound hm i j).1, (s'.equals_sound hm' i' j').1, (s.hashCode_sound hm i).1,
    (s'.hashCode_sound hm' i').1, Tree.hash_eq_of_same hi, Tree.hash_eq_of_same hj]
  exact ⟨rfl, rfl⟩

/-- A store of four nodes: the integer one, the empty atom, their pair, and a pair that holds
that pair twice. -/
def sharedPairs : Store 4 where
  node i :=
    if i.val = 0 then .atom [1] .int
    else if i.val = 1 then .atom [] .bytes
    else if i.val = 2 then .cons 0 1
    else .cons 2 2
  parts_earlier := by decide

theorem treeHash_agrees_sharedPairs :
    sharedPairs.Sound (fun _ => none) ∧
      ((∀ i, (sharedPairs.treeHash (fun _ => none) i).1 = some (sharedPairs.tree i).hash ∧
        sharedPairs.Sound (sharedPairs.treeHash (fun _ => none) i).2) ∧
      ∀ {n' : Nat} (s' : Store n') (m' : Memo n'), s'.Sound m' →
        ∀ i j i' j', (sharedPairs.tree i).same (s'.tree i') = true →
          (sharedPairs.tree j).same (s'.tree j') = true →
          (sharedPairs.equals (fun _ => none) i j).1 = (s'.equals m' i' j').1 ∧
            (sharedPairs.hashCode (fun _ => none) i).1 = (s'.hashCode m' i').1) :=
  have hm : sharedPairs.Sound (fun _ => none) := fun _ _ h => by simp at h
  ⟨hm, treeHash_agrees sharedPairs _ hm⟩

end Store

end PuzzleKit
