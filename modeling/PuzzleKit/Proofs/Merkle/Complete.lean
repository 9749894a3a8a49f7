import PuzzleKit.Action.Merkle
import PuzzleKit.Proofs.Built
import Mathlib

/-!
# Merkle proofs of actions are complete

A level of an action tree pairs neighbours from the left and moves an odd last node up as it
is; the proof of a position lists, level by level, the sibling the position has, and nothing
where it is the odd last node. Since the parent hash does not depend on the order of the two
children, folding one level's part of the proof into a node gives the node one level up at
half the position (`getElem?_levelUp`), and folding the whole proof climbs to the root
(`top_levelsFrom`).

So for every tree built by adding actions and every action added, the proof of the action
leads from its leaf to the root, and both `verifyProof` and `ActionTree.verify` accept it
(`proof_of_added_verifies`).
-/

namespace PuzzleKit

/-! ### The parent hash -/

theorem bytesLe_total : ∀ a b : List UInt8, bytesLe a b = true ∨ bytesLe b a = true
  | [], _ => .inl rfl
  | _ :: _, [] => .inr rfl
  | x :: xs, y :: ys => by
    simp only [bytesLe]
    by_cases hxy : x < y
    · simp [hxy]
    · by_cases hyx : y < x
      · simp [hyx]
      · have hxy' : x = y := by
          rw [UInt8.lt_iff_toNat_lt] at hxy hyx
          exact UInt8.toNat_inj.mp (by omega)
        subst hxy'
        simpa using bytesLe_total xs ys

theorem bytesLe_antisymm : ∀ {a b : List UInt8}, bytesLe a b = true → bytesLe b a = true → a = b
  | [], [], _, _ => rfl
  | [], _ :: _, _, h => by simp [bytesLe] at h
  | _ :: _, [], h, _ => by simp [bytesLe] at h
  | x :: xs, y :: ys, h1, h2 => by
    simp only [bytesLe] at h1 h2
    by_cases hxy : x < y
    · have hyx : ¬ y < x := by rw [UInt8.lt_iff_toNat_lt] at hxy ⊢; omega
      rw [if_neg hyx, if_pos hxy] at h2
      cases h2
    · by_cases hyx : y < x
      · rw [if_neg hxy, if_pos hyx] at h1
        cases h1
      · have hxy' : x = y := by
          rw [UInt8.lt_iff_toNat_lt] at hxy hyx
          exact UInt8.toNat_inj.mp (by omega)
        subst hxy'
        rw [if_neg hxy, if_neg hxy] at h1 h2
        rw [bytesLe_antisymm h1 h2]

theorem merkleParent_comm (a b : List UInt8) : merkleParent a b = merkleParent b a := by
  by_cases hab : a = b
  · rw [hab]
  rcases bytesLe_total a b with h | h
  · have h' : bytesLe b a = false := by
      cases hba : bytesLe b a
      · rfl
      · exact absurd (bytesLe_antisymm h hba) hab
    simp [merkleParent, h, h', Ne.symm hab]
  · have h' : bytesLe a b = false := by
      cases hba : bytesLe a b
      · rfl
      · exact absurd (bytesLe_antisymm hba h) hab
    simp [merkleParent, h, h', hab]

/-- What the parent of two nodes hashes: the smaller node, then the larger. -/
def parentInput (a b : List UInt8) : List UInt8 :=
  if bytesLe b a && a != b then b ++ a else a ++ b

theorem merkleParent_eq_hash (a b : List UInt8) : merkleParent a b = Sha256.hash (parentInput a b) := by
  unfold merkleParent parentInput
  split <;> rfl

theorem length_merkleParent (a b : List UInt8) : (merkleParent a b).length = 32 := by
  rw [merkleParent_eq_hash, Sha256.length_hash]

theorem length_actionLeaf (name : String) (h : List UInt8) : (actionLeaf name h).length = 32 :=
  Sha256.length_hash _

/-! ### Levels -/

/-- What one level up hashes: each pair of neighbours from the left. -/
def levelUpInputs : List (List UInt8) → List (List UInt8)
  | a :: b :: rest => parentInput a b :: levelUpInputs rest
  | _ => []

theorem xor_one_add_two (j : Nat) : (j + 2) ^^^ 1 = (j ^^^ 1) + 2 := by
  rcases Nat.even_or_odd j with h | h
  · rw [Nat.xor_one_of_even h, Nat.xor_one_of_even (h.add even_two)]
  · have hodd := Nat.odd_iff.mp h
    rw [Nat.xor_one_of_odd h, Nat.xor_one_of_odd (h.add_even even_two)]
    omega

theorem length_levelUp : ∀ L : List (List UInt8), (levelUp L).length = (L.length + 1) / 2
  | a :: b :: rest => by
    simp only [levelUp, List.length_cons, length_levelUp rest]
    omega
  | [] => rfl
  | [_] => by simp [levelUp]

/-- One level up takes the node at `i` to the node at `i / 2`: folding in its sibling, when it
has one, gives the parent. -/
theorem getElem?_levelUp : ∀ (L : List (List UInt8)) (i : Nat) {x : List UInt8},
    L[i]? = some x → (levelUp L)[i / 2]? = some (L[i ^^^ 1]?.toList.foldl merkleParent x)
  | a :: b :: rest, 0, x, h => by
    simp only [List.getElem?_cons_zero, Option.some.injEq] at h
    subst h
    rfl
  | a :: b :: rest, 1, x, h => by
    simp only [List.getElem?_cons_succ, List.getElem?_cons_zero, Option.some.injEq] at h
    subst h
    simp [levelUp, merkleParent_comm b a]
  | a :: b :: rest, j + 2, x, h => by
    simp only [List.getElem?_cons_succ] at h
    have hj : (j + 2) / 2 = j / 2 + 1 := by omega
    rw [hj, xor_one_add_two]
    simpa [levelUp] using getElem?_levelUp rest j h
  | [], _, _, h => by simp at h
  | [a], 0, x, h => by
    simp only [List.getElem?_cons_zero, Option.some.injEq] at h
    subst h
    rfl
  | [_], _ + 1, _, h => by simp at h

theorem mem_levelUp : ∀ {L : List (List UInt8)} {x : List UInt8}, x ∈ levelUp L →
    x ∈ L ∨ ∃ a ∈ L, ∃ b ∈ L, parentInput a b ∈ levelUpInputs L ∧ x = merkleParent a b
  | a :: b :: rest, x, h => by
    rcases List.mem_cons.mp h with rfl | h
    · exact .inr ⟨a, by simp, b, by simp, by simp [levelUpInputs], rfl⟩
    · rcases mem_levelUp h with h | ⟨c, hc, d, hd, hin, rfl⟩
      · exact .inl (by simp [h])
      · exact .inr ⟨c, by simp [hc], d, by simp [hd], by simp [levelUpInputs, hin], rfl⟩
  | [], _, h => .inl h
  | [_], _, h => .inl (by simpa [levelUp] using h)

theorem head?_levelsFrom (fuel : Nat) (L : List (List UInt8)) :
    (levelsFrom fuel L).head? = some L := by
  cases fuel with
  | zero => rfl
  | succ n => rcases L with _ | ⟨a, _ | ⟨b, rest⟩⟩ <;> rfl

theorem levelsFrom_cons_cons (n : Nat) (a b : List UInt8) (rest : List (List UInt8)) :
    ∃ up, levelsFrom (n + 1) (a :: b :: rest) =
      (a :: b :: rest) :: levelUp (a :: b :: rest) :: up := by
  have h := head?_levelsFrom n (levelUp (a :: b :: rest))
  cases hl : levelsFrom n (levelUp (a :: b :: rest)) with
  | nil => simp [hl] at h
  | cons l up =>
    simp only [hl, List.head?_cons, Option.some.injEq] at h
    refine ⟨up, ?_⟩
    show (a :: b :: rest) :: levelsFrom n (levelUp (a :: b :: rest)) = _
    rw [hl, h]

/-- Every node on every level is a leaf or the parent of two nodes of the levels, whose hash
input some level hashes. -/
theorem mem_levelsFrom : ∀ {fuel : Nat} {L : List (List UInt8)} {x : List UInt8},
    x ∈ (levelsFrom fuel L).flatten →
    x ∈ L ∨ ∃ a ∈ (levelsFrom fuel L).flatten, ∃ b ∈ (levelsFrom fuel L).flatten,
      parentInput a b ∈ (levelsFrom fuel L).flatMap levelUpInputs ∧ x = merkleParent a b
  | 0, L, x, h => .inl (by simpa [levelsFrom] using h)
  | n + 1, [], x, h => by simp [levelsFrom] at h
  | n + 1, [y], x, h => .inl (by simpa [levelsFrom] using h)
  | n + 1, a :: b :: rest, x, h => by
    obtain ⟨up, hup⟩ := levelsFrom_cons_cons n a b rest
    have hrest : levelsFrom n (levelUp (a :: b :: rest)) = levelUp (a :: b :: rest) :: up := by
      simpa [levelsFrom] using hup
    have hsub : (levelsFrom n (levelUp (a :: b :: rest))).flatten ⊆ (levelsFrom (n + 1) (a :: b :: rest)).flatten := by
      rw [hup, ← hrest]
      exact List.subset_append_right _ _
    have hsubI : (levelsFrom n (levelUp (a :: b :: rest))).flatMap levelUpInputs ⊆
        (levelsFrom (n + 1) (a :: b :: rest)).flatMap levelUpInputs := by
      rw [hup, ← hrest, List.flatMap_cons]
      exact List.subset_append_right _ _
    have hL : a :: b :: rest ⊆ (levelsFrom (n + 1) (a :: b :: rest)).flatten := by
      rw [hup]
      exact List.subset_append_left _ _
    have hLI : levelUpInputs (a :: b :: rest) ⊆ (levelsFrom (n + 1) (a :: b :: rest)).flatMap levelUpInputs := by
      rw [hup, List.flatMap_cons]
      exact List.subset_append_left _ _
    rw [hup, List.flatten_cons, List.mem_append] at h
    rcases h with h | h
    · exact .inl h
    rw [← hrest] at h
    rcases mem_levelsFrom h with h | ⟨c, hc, d, hd, hin, rfl⟩
    · -- a node one level up: a node here or the parent of two
      rcases mem_levelUp h with h | ⟨c, hc, d, hd, hin, rfl⟩
      · exact .inl h
      · exact .inr ⟨c, hL hc, d, hL hd, hLI hin, rfl⟩
    · exact .inr ⟨c, hsub hc, d, hsub hd, hsubI hin, rfl⟩

theorem length_of_mem_levelsFrom {fuel : Nat} {L : List (List UInt8)} (hL : ∀ y ∈ L, y.length = 32)
    {x : List UInt8} (hx : x ∈ (levelsFrom fuel L).flatten) : x.length = 32 := by
  rcases mem_levelsFrom hx with h | ⟨a, -, b, -, -, rfl⟩
  · exact hL x h
  · exact length_merkleParent a b

theorem length_foldl_merkleParent : ∀ (p : List (List UInt8)) {x : List UInt8}, x.length = 32 →
    (p.foldl merkleParent x).length = 32
  | [], _, hx => hx
  | s :: p, x, _ => length_foldl_merkleParent p (length_merkleParent x s)

theorem ne_nil_of_mem_levelsFrom : ∀ {fuel : Nat} {L lvl : List (List UInt8)}, L ≠ [] →
    lvl ∈ levelsFrom fuel L → lvl ≠ []
  | 0, _, _, hL, h => by simp only [levelsFrom, List.mem_singleton] at h; rwa [h]
  | n + 1, [], _, hL, _ => absurd rfl hL
  | n + 1, [y], _, _, h => by simp [levelsFrom] at h; simp [h]
  | n + 1, a :: b :: rest, lvl, _, h => by
    simp only [levelsFrom, List.mem_cons] at h
    rcases h with rfl | h
    · simp
    · refine ne_nil_of_mem_levelsFrom ?_ h
      rw [← List.length_pos_iff, length_levelUp]
      simp

theorem siblings_eq_toList (L : List (List UInt8)) (j : Nat) :
    (if h : j < L.length then [L[j]] else []) = L[j]?.toList := by
  split <;> simp_all

theorem proofPath_cons_cons (L L' : List (List UInt8)) (up : List (List (List UInt8))) (i : Nat) :
    proofPath (L :: L' :: up) i = L[i ^^^ 1]?.toList ++ proofPath (L' :: up) (i / 2) := by
  rw [proofPath, siblings_eq_toList]
  exact List.cons_ne_nil _ _

theorem mem_of_mem_proofPath : ∀ {levels : List (List (List UInt8))} {i : Nat} {s : List UInt8},
    s ∈ proofPath levels i → s ∈ levels.flatten
  | [], _, _, h => by simp [proofPath] at h
  | [_], _, _, h => by simp [proofPath] at h
  | L :: L' :: up, i, s, h => by
    rw [proofPath_cons_cons, List.mem_append] at h
    rcases h with h | h
    · obtain ⟨j, hj⟩ : ∃ j, L[i ^^^ 1]? = some j ∧ s = j := by
        cases hs : L[i ^^^ 1]? <;> simp_all
      simp only [List.flatten_cons, List.mem_append]
      exact .inl (hj.2 ▸ List.mem_of_getElem? hj.1)
    · have := mem_of_mem_proofPath h
      simp only [List.flatten_cons, List.mem_append] at this ⊢
      exact .inr this

/-- Folding the proof path of a position into its node climbs to the top of the levels, given
enough levels to come down to a single node. The induction is on the levels left, each step
taking the position to its half one level up. -/
theorem top_levelsFrom : ∀ (fuel : Nat) (L : List (List UInt8)) (i : Nat) {x : List UInt8},
    L[i]? = some x → L.length ≤ fuel + 1 →
    (levelsFrom fuel L).getLast?.bind (·.head?) =
      some ((proofPath (levelsFrom fuel L) i).foldl merkleParent x)
  | 0, L, i, x, hx, hlen => by
    have hL : L = [x] ∧ i = 0 := by
      match L, i, hx with
      | [y], 0, hx => simpa using hx
      | [_], _ + 1, hx => simp at hx
      | _ :: _ :: _, _, _ => simp at hlen
    obtain ⟨rfl, rfl⟩ := hL
    rfl
  | n + 1, [], i, x, hx, _ => by simp at hx
  | n + 1, [y], i, x, hx, _ => by
    have hi : i = 0 ∧ y = x := by
      match i, hx with
      | 0, hx => simpa using hx
      | _ + 1, hx => simp at hx
    obtain ⟨rfl, rfl⟩ := hi
    rfl
  | n + 1, a :: b :: rest, i, x, hx, hlen => by
    obtain ⟨up, hup⟩ := levelsFrom_cons_cons n a b rest
    have hrest : levelsFrom n (levelUp (a :: b :: rest)) = levelUp (a :: b :: rest) :: up := by
      simpa [levelsFrom] using hup
    have hlen' : (levelUp (a :: b :: rest)).length ≤ n + 1 := by
      rw [length_levelUp]
      simp only [List.length_cons] at hlen ⊢
      omega
    have ih := top_levelsFrom n _ (i / 2) (getElem?_levelUp (a :: b :: rest) i hx) hlen'
    rw [hrest] at ih
    rw [hup, List.getLast?_cons_cons, ih, proofPath_cons_cons, List.foldl_append]

/-! ### Trees built by adding actions -/

namespace ActionTree

/-- What an insertion does: it refuses a name that cannot be looked up or is there already
and a program hash that is not 32 bytes, leaving the tree as it was; it refuses a name that
is not text after recording its position; and otherwise it appends the leaf. -/
theorem run_insert (t : ActionTree) (name : Value) (h : List UInt8) :
    (insert name h).run t =
      match t.position? name, checkHash h "program hash", name.utf8Text with
      | .error e, _, _ => .error e t
      | .ok (some _), _, _ => .error (.value ("duplicate action " ++ name.text)) t
      | .ok none, .error e, _ => .error e t
      | .ok none, .ok _, .error e => .error e { t with index := t.index ++ [(name, t.leaves.length)] }
      | .ok none, .ok _, .ok s =>
        .ok () { leaves := t.leaves ++ [(s, h, actionLeaf s h)],
                 index := t.index ++ [(name, t.leaves.length)] } := by
  simp only [insert, EStateM.run, bind, EStateM.bind, get, getThe, MonadStateOf.get, EStateM.get]
  cases t.position? name with
  | error e => rfl
  | ok p =>
    cases p with
    | some i => rfl
    | none =>
      cases checkHash h "program hash" with
      | error e => rfl
      | ok u => cases name.utf8Text <;> rfl

theorem position?_str (t : ActionTree) (name : String) :
    t.position? (.str name) = .ok ((t.index.find? (Value.itemEq (.str name) ·.1)).map (·.2)) :=
  rfl

/-- Adding an action that is new and has a 32-byte program hash appends its leaf and records
its position. -/
theorem add_eq_ok {t t' : ActionTree} {name : String} {h : List UInt8} (hadd : t.add name h = .ok t') :
    t' = { leaves := t.leaves ++ [(name, h, actionLeaf name h)],
           index := t.index ++ [(.str name, t.leaves.length)] } := by
  unfold add at hadd
  rw [run_insert] at hadd
  cases hp : t.position? (.str name) with
  | error e => simp [hp] at hadd
  | ok p =>
    cases p with
    | some i => simp [hp] at hadd
    | none =>
      cases hc : checkHash h "program hash" with
      | error e => simp [hp, hc] at hadd
      | ok u =>
        simp only [hp, hc, Value.utf8Text, Except.ok.injEq] at hadd
        exact hadd.symm

/-- The trees that adding actions one by one to the empty tree produces. -/
inductive Built : ActionTree → Prop
  | empty : Built {}
  | add {t t' : ActionTree} {name : String} {programHash : List UInt8} :
      Built t → t.add name programHash = .ok t' → Built t'

/-- Every leaf of the tree is the leaf of its name and program hash. -/
def LeavesHashed (t : ActionTree) : Prop := ∀ e ∈ t.leaves, e.2.2 = actionLeaf e.1 e.2.1

/-- What adding keeps: every name is indexed at its own position, and every leaf is the leaf
of its name and program hash. -/
structure Wf (t : ActionTree) : Prop where
  index : t.index = t.leaves.zipIdx.map fun p => (Value.str p.1.1, p.2)
  leaf : t.LeavesHashed

theorem Wf.add {t t' : ActionTree} {name : String} {h : List UInt8} (hw : t.Wf)
    (hadd : t.add name h = .ok t') : t'.Wf := by
  rw [add_eq_ok hadd]
  constructor
  · simp [hw.index, List.zipIdx_append]
  · intro e he
    rcases List.mem_append.mp he with he | he
    · exact hw.leaf e he
    · simp only [List.mem_singleton] at he
      rw [he]

theorem Built.wf {t : ActionTree} (ht : t.Built) : t.Wf := by
  induction ht with
  | empty => exact ⟨rfl, fun _ h => by simp at h⟩
  | add _ hadd ih => exact ih.add hadd

theorem position?_of_mem_names {t : ActionTree} (hw : t.Wf) {name : String} (hn : name ∈ t.names) :
    ∃ i e, t.position? (.str name) = .ok (some i) ∧ t.leaves[i]? = some e ∧ e.1 = name := by
  have hfind : (t.leaves.zipIdx.find? fun p => p.1.1 == name).isSome := by
    obtain ⟨e, he, rfl⟩ := List.mem_map.mp hn
    obtain ⟨k, hk⟩ := List.getElem?_of_mem he
    exact List.find?_isSome.mpr ⟨(e, k), List.mem_zipIdx_iff_getElem?.mpr hk, by simp⟩
  obtain ⟨⟨e, i⟩, hp⟩ := Option.isSome_iff_exists.mp hfind
  have hpos : t.position? (.str name) = .ok (some i) := by
    rw [position?_str, hw.index, List.find?_map]
    have hfun : ((fun p : Value × Nat => Value.itemEq (.str name) p.1) ∘
        fun p : (String × List UInt8 × List UInt8) × Nat => (Value.str p.1.1, p.2)) =
        fun p => p.1.1 == name := by
      funext p
      simp [Build.Puzzle.itemEq_str, eq_comm]
    rw [hfun, hp]
    rfl
  refine ⟨i, e, hpos, List.mem_zipIdx_iff_getElem?.mp (List.mem_of_find?_eq_some hp), ?_⟩
  simpa using List.find?_some hp

theorem position?_eq_none_of_add {t t' : ActionTree} {name : String} {h : List UInt8}
    (hadd : t.add name h = .ok t') : t.position? (.str name) = .ok none := by
  unfold add at hadd
  rw [run_insert] at hadd
  cases hp : t.position? (.str name) with
  | error e => simp [hp] at hadd
  | ok p =>
    cases p with
    | some i => simp [hp] at hadd
    | none => rfl

theorem Built.nodup_names {t : ActionTree} (ht : t.Built) : t.names.Nodup := by
  induction ht with
  | empty => exact List.nodup_nil
  | @add t t' name h ht hadd ih =>
    have hnew : name ∉ t.names := fun hn => by
      obtain ⟨i, e, hpos, -⟩ := position?_of_mem_names ht.wf hn
      rw [position?_eq_none_of_add hadd] at hpos
      cases hpos
    rw [add_eq_ok hadd]
    simp only [names, List.map_append, List.map_cons, List.map_nil]
    refine List.nodup_append.mpr ⟨ih, List.nodup_cons.mpr ⟨List.not_mem_nil, List.nodup_nil⟩, ?_⟩
    rintro a ha b hb rfl
    rw [List.mem_singleton] at hb
    exact hnew (hb ▸ ha)

/-- The root of a tree with actions is where the proof path of any position leads from its
leaf. -/
theorem root_eq_foldl_proofPath (t : ActionTree) {i : Nat} {e : String × List UInt8 × List UInt8}
    (he : t.leaves[i]? = some e) : t.root = (proofPath t.levels i).foldl merkleParent e.2.2 := by
  have hne : t.leaves.isEmpty = false := by
    cases hl : t.leaves with
    | nil => simp [hl] at he
    | cons _ _ => rfl
  have hx : (t.leaves.map (·.2.2))[i]? = some e.2.2 := by simp [he]
  have htop := top_levelsFrom t.leaves.length (t.leaves.map (·.2.2)) i hx (by simp)
  rw [root, hne, levels, htop]
  rfl

theorem length_of_mem_levels {t : ActionTree} (hl : t.LeavesHashed) {x : List UInt8}
    (hx : x ∈ t.levels.flatten) : x.length = 32 := by
  refine length_of_mem_levelsFrom (fun y hy => ?_) hx
  obtain ⟨e, he, rfl⟩ := List.mem_map.mp hy
  rw [hl e he]
  exact length_actionLeaf _ _

end ActionTree

/-! ### Checking a proof -/

theorem foldlM_checkHash_eq_ok : ∀ {p : List (List UInt8)} {cur r : List UInt8},
    p.foldlM (fun cur sib => do checkHash sib "proof element"; return merkleParent cur sib) cur =
      (Except.ok r : Except Failure (List UInt8)) ↔
    (∀ s ∈ p, s.length = 32) ∧ r = p.foldl merkleParent cur
  | [], cur, r => by
    simp only [List.foldlM_nil, List.not_mem_nil, List.foldl_nil]
    exact ⟨fun h => ⟨fun _ h => h.elim, (Except.ok.inj h).symm⟩, fun h => h.2 ▸ rfl⟩
  | s :: p, cur, r => by
    by_cases hs : s.length = 32
    · have hc : checkHash s "proof element" = .ok () := by simp [checkHash, hs]
      simp only [List.foldlM_cons, hc, List.mem_cons, forall_eq_or_imp, hs, true_and,
        List.foldl_cons]
      exact foldlM_checkHash_eq_ok
    · have hc : checkHash s "proof element" = .error (.value ("proof element" ++ " must be a 32 byte hash")) := by
        simp [checkHash, hs]
      simp only [List.foldlM_cons, hc, List.mem_cons, forall_eq_or_imp, hs, false_and, iff_false]
      intro h
      cases h

/-- A proof check answers exactly when the leaf, the root and every sibling are 32 bytes
long, and then tells whether folding the siblings into the leaf gives the root. -/
theorem verifyProof_eq_ok {leaf root : List UInt8} {p : List (List UInt8)} {b : Bool} :
    verifyProof leaf p root = .ok b ↔
      leaf.length = 32 ∧ root.length = 32 ∧ (∀ s ∈ p, s.length = 32) ∧
        b = (p.foldl merkleParent leaf == root) := by
  unfold verifyProof
  by_cases hl : leaf.length = 32
  · by_cases hr : root.length = 32
    · have hcl : checkHash leaf "leaf" = .ok () := by simp [checkHash, hl]
      have hcr : checkHash root "root" = .ok () := by simp [checkHash, hr]
      by_cases hp : ∀ s ∈ p, s.length = 32
      · have hf := (@foldlM_checkHash_eq_ok p leaf _).mpr ⟨hp, rfl⟩
        rw [hcl, hcr, hf]
        simp only [bind, Except.bind, pure, Except.pure, Except.ok.injEq, hl, hr, true_and]
        exact ⟨fun h => ⟨hp, h.symm⟩, fun h => h.2.symm⟩
      · cases hf : p.foldlM (fun cur sib => do checkHash sib "proof element"; return merkleParent cur sib) leaf with
        | ok top => exact absurd (foldlM_checkHash_eq_ok.mp hf).1 hp
        | error e =>
          rw [hcl, hcr]
          simp only [bind, Except.bind, reduceCtorEq, false_iff]
          exact fun h => hp h.2.2.1
    · have hcl : checkHash leaf "leaf" = .ok () := by simp [checkHash, hl]
      have hcr : checkHash root "root" = .error (.value ("root" ++ " must be a 32 byte hash")) := by
        simp [checkHash, hr]
      rw [hcl, hcr]
      simp only [bind, Except.bind, reduceCtorEq, false_iff]
      exact fun h => hr h.2.1
  · have hcl : checkHash leaf "leaf" = .error (.value ("leaf" ++ " must be a 32 byte hash")) := by
      simp [checkHash, hl]
    rw [hcl]
    simp only [bind, Except.bind, reduceCtorEq, false_iff]
    exact fun h => hl h.1

/-! ### Every added action has a proof that checks -/

/-- The proof of every action added to a tree leads from its leaf to the root: the proof check
accepts it, and so does the tree's own check of the action. -/
theorem proof_of_added_verifies {t : ActionTree} (ht : t.Built) {name : String} (hn : name ∈ t.names) :
    ∃ leaf proof, t.leaf (.str name) = .ok leaf ∧ t.proof (.str name) = .ok proof ∧
      verifyProof leaf proof t.root = .ok true ∧ t.verify (.str name) proof t.root = .ok true := by
  have hw := ht.wf
  obtain ⟨i, e, hpos, he, rfl⟩ := ActionTree.position?_of_mem_names hw hn
  have hlook : t.lookup (.str e.1) = .ok i := by simp [ActionTree.lookup, hpos]; rfl
  have hleaf : t.leaf (.str e.1) = .ok e.2.2 := by
    unfold ActionTree.leaf ActionTree.entry
    simp only [hlook, he, bind, Except.bind]
    rfl
  have hproof : t.proof (.str e.1) = .ok (proofPath t.levels i) := by
    simp [ActionTree.proof, hlook]
  have hcontains : t.contains (.str e.1) = .ok true := by
    simp [ActionTree.contains, hpos]
  have hroot := t.root_eq_foldl_proofPath he
  have hlen : e.2.2.length = 32 := by
    rw [hw.leaf e (List.mem_of_getElem? he)]
    exact length_actionLeaf _ _
  have hv : verifyProof e.2.2 (proofPath t.levels i) t.root = .ok true := by
    refine verifyProof_eq_ok.mpr ⟨hlen, ?_, ?_, ?_⟩
    · rw [hroot]
      exact length_foldl_merkleParent _ hlen
    · exact fun s hs => ActionTree.length_of_mem_levels hw.leaf (mem_of_mem_proofPath hs)
    · rw [hroot, beq_self_eq_true]
  refine ⟨e.2.2, proofPath t.levels i, hleaf, hproof, hv, ?_⟩
  simp [ActionTree.verify, hcontains, hleaf, hv, bind, Except.bind]

/-- The tree of one action, named `go`, built by adding it. -/
theorem proof_of_added_verifies_go :
    ActionTree.Built ⟨[("go", List.replicate 32 1, actionLeaf "go" (List.replicate 32 1))],
      [(.str "go", 0)]⟩ ∧
    "go" ∈ ActionTree.names ⟨[("go", List.replicate 32 1, actionLeaf "go" (List.replicate 32 1))],
      [(.str "go", 0)]⟩ ∧
    ∃ leaf proof,
      ActionTree.leaf ⟨[("go", List.replicate 32 1, actionLeaf "go" (List.replicate 32 1))],
        [(.str "go", 0)]⟩ (.str "go") = .ok leaf ∧
      ActionTree.proof ⟨[("go", List.replicate 32 1, actionLeaf "go" (List.replicate 32 1))],
        [(.str "go", 0)]⟩ (.str "go") = .ok proof ∧
      verifyProof leaf proof (ActionTree.root ⟨[("go", List.replicate 32 1,
        actionLeaf "go" (List.replicate 32 1))], [(.str "go", 0)]⟩) = .ok true ∧
      ActionTree.verify ⟨[("go", List.replicate 32 1, actionLeaf "go" (List.replicate 32 1))],
        [(.str "go", 0)]⟩ (.str "go") proof (ActionTree.root ⟨[("go", List.replicate 32 1,
        actionLeaf "go" (List.replicate 32 1))], [(.str "go", 0)]⟩) = .ok true :=
  have hb : ActionTree.Built ⟨[("go", List.replicate 32 1, actionLeaf "go" (List.replicate 32 1))],
      [(.str "go", 0)]⟩ :=
    @ActionTree.Built.add _ _ "go" (List.replicate 32 1) .empty rfl
  have hn : "go" ∈ ActionTree.names ⟨[("go", List.replicate 32 1,
      actionLeaf "go" (List.replicate 32 1))], [(.str "go", 0)]⟩ := by simp [ActionTree.names]
  ⟨hb, hn, proof_of_added_verifies hb hn⟩

end PuzzleKit
