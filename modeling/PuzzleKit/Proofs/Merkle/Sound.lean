import PuzzleKit.Proofs.Merkle.Complete

/-!
# Merkle proofs of actions bind their action

A leaf hashes 65 bytes, the byte 2 and two atom hashes, and a parent hashes 64, two nodes. So
a check that folds a proof into a leaf and reaches the root of a tree can be walked back down
the tree: each fold step hashes what some parent of the tree hashes, and then the node below
is one of that parent's two children, or two different inputs have one digest. At the bottom
the leaf is a leaf of the tree, whose input names an action and its program hash, or again
two inputs collide.

`verifyProof_sound`: for every tree that insertions, accepted or refused, can reach, a proof
that leads from the leaf of a name and a program hash to the root shows that this action was
added, unless SHA-256 maps two distinct inputs among those of the check and of the tree to one
digest.
-/

namespace PuzzleKit

/-! ### What the hashes are taken of -/

/-- What computing the leaf of an action hashes: its name, its program hash, and the byte 2
followed by their two atom hashes. -/
def leafInputs (name : String) (programHash : List UInt8) : List (List UInt8) :=
  [1 :: name.toUTF8.toList, 1 :: programHash,
    2 :: atomHash name.toUTF8.toList ++ atomHash programHash]

/-- What folding proof siblings into a node hashes, step by step. -/
def foldInputs : List UInt8 → List (List UInt8) → List (List UInt8)
  | _, [] => []
  | cur, s :: p => parentInput cur s :: foldInputs (merkleParent cur s) p

/-- What building a tree hashes: the leaf of every action, and the parents on every level. -/
def ActionTree.hashInputs (t : ActionTree) : List (List UInt8) :=
  t.leaves.flatMap (fun e => leafInputs e.1 e.2.1) ++ t.levels.flatMap levelUpInputs

/-- SHA-256 maps two distinct inputs among `I` to one digest. -/
def Collides (I : List (List UInt8)) : Prop :=
  ∃ x ∈ I, ∃ y ∈ I, x ≠ y ∧ Sha256.hash x = Sha256.hash y

theorem Collides.mono {I J : List (List UInt8)} (hIJ : I ⊆ J) : Collides I → Collides J
  | ⟨x, hx, y, hy, hne, h⟩ => ⟨x, hIJ hx, y, hIJ hy, hne, h⟩

theorem collides_of_length_ne {I : List (List UInt8)} {x y : List UInt8} (hx : x ∈ I) (hy : y ∈ I)
    (hl : x.length ≠ y.length) (h : Sha256.hash x = Sha256.hash y) : Collides I :=
  ⟨x, hx, y, hy, fun hxy => hl (hxy ▸ rfl), h⟩

theorem length_parentInput {a b : List UInt8} (ha : a.length = 32) (hb : b.length = 32) :
    (parentInput a b).length = 64 := by
  unfold parentInput
  split <;> simp [ha, hb]

theorem length_leafInput (name : String) (h : List UInt8) :
    (2 :: atomHash name.toUTF8.toList ++ atomHash h).length = 65 := by
  simp [atomHash, Sha256.length_hash]

theorem eq_or_eq_of_parentInput_eq {a b c d : List UInt8} (ha : a.length = 32) (hb : b.length = 32)
    (hc : c.length = 32) (hd : d.length = 32) (h : parentInput a b = parentInput c d) :
    a = c ∨ a = d := by
  unfold parentInput at h
  split at h <;> split at h
  · exact .inl (List.append_inj h (by rw [hb, hd])).2
  · exact .inr (List.append_inj h (by rw [hb, hc])).2
  · exact .inr (List.append_inj h (by rw [ha, hd])).1
  · exact .inl (List.append_inj h (by rw [ha, hc])).1

theorem eq_or_collides_of_actionLeaf_eq {n n' : String} {h h' : List UInt8}
    (heq : actionLeaf n h = actionLeaf n' h') :
    (n = n' ∧ h = h') ∨ Collides (leafInputs n h ++ leafInputs n' h') := by
  by_cases hin : 2 :: atomHash n.toUTF8.toList ++ atomHash h =
      2 :: atomHash n'.toUTF8.toList ++ atomHash h'
  · simp only [List.cons_append, List.cons.injEq, true_and] at hin
    obtain ⟨hn, hh⟩ := List.append_inj hin (by simp [atomHash, Sha256.length_hash])
    by_cases hn' : n = n'
    · by_cases hh' : h = h'
      · exact .inl ⟨hn', hh'⟩
      · exact .inr ⟨1 :: h, by simp [leafInputs], 1 :: h', by simp [leafInputs],
          by simpa using hh', hh⟩
    · have hb : n.toUTF8.toList ≠ n'.toUTF8.toList := fun hb => hn' (by
        have := Text.decodeUtf8_toUTF8 n
        rw [hb, Text.decodeUtf8_toUTF8] at this
        exact (Except.ok.inj this).symm)
      exact .inr ⟨1 :: n.toUTF8.toList, by simp [leafInputs], 1 :: n'.toUTF8.toList,
        by simp [leafInputs], by simpa using hb, hn⟩
  · exact .inr ⟨_, by simp [leafInputs], _, by simp [leafInputs], hin, heq⟩

/-! ### Trees reached by insertions -/

namespace ActionTree

/-- The trees that insertions from the empty tree reach, each insertion accepted or refused. -/
inductive Reachable : ActionTree → Prop
  | empty : Reachable {}
  | accepted {t t' : ActionTree} {name : Value} {h : List UInt8} :
      Reachable t → (insert name h).run t = .ok () t' → Reachable t'
  | refused {t t' : ActionTree} {name : Value} {h : List UInt8} {e : Failure} :
      Reachable t → (insert name h).run t = .error e t' → Reachable t'

theorem leaves_of_run_insert {t t' : ActionTree} {name : Value} {h : List UInt8}
    (hr : (insert name h).run t = .ok () t' ∨ ∃ e, (insert name h).run t = .error e t') :
    t'.leaves = t.leaves ∨ ∃ s, t'.leaves = t.leaves ++ [(s, h, actionLeaf s h)] := by
  rw [run_insert] at hr
  rcases hr with hr | ⟨e, hr⟩ <;> split at hr <;> simp only [reduceCtorEq, EStateM.Result.ok.injEq,
    EStateM.Result.error.injEq, true_and] at hr
  · subst hr
    exact .inr ⟨_, rfl⟩
  all_goals
    obtain ⟨-, rfl⟩ := hr
    exact .inl rfl

theorem LeavesHashed.of_run_insert {t t' : ActionTree} {name : Value} {h : List UInt8}
    (hl : t.LeavesHashed)
    (hr : (insert name h).run t = .ok () t' ∨ ∃ e, (insert name h).run t = .error e t') :
    t'.LeavesHashed := by
  intro e he
  rcases leaves_of_run_insert hr with hs | ⟨s, hs⟩ <;> rw [hs] at he
  · exact hl e he
  · rcases List.mem_append.mp he with he | he
    · exact hl e he
    · simp only [List.mem_singleton] at he
      rw [he]

theorem Reachable.leavesHashed {t : ActionTree} (ht : t.Reachable) : t.LeavesHashed := by
  induction ht with
  | empty => exact fun _ h => by simp at h
  | accepted _ hr ih => exact ih.of_run_insert (.inl hr)
  | refused _ hr ih => exact ih.of_run_insert (.inr ⟨_, hr⟩)

theorem mem_levels {t : ActionTree} (hl : t.LeavesHashed) {x : List UInt8}
    (hx : x ∈ t.levels.flatten) :
    (∃ e ∈ t.leaves, x = actionLeaf e.1 e.2.1) ∨
      ∃ a ∈ t.levels.flatten, ∃ b ∈ t.levels.flatten,
        parentInput a b ∈ t.hashInputs ∧ x = merkleParent a b := by
  rcases mem_levelsFrom hx with h | ⟨a, ha, b, hb, hin, rfl⟩
  · obtain ⟨e, he, rfl⟩ := List.mem_map.mp h
    exact .inl ⟨e, he, hl e he⟩
  · exact .inr ⟨a, ha, b, hb, List.mem_append_right _ hin, rfl⟩

theorem leafInput_mem_hashInputs {t : ActionTree} {e : String × List UInt8 × List UInt8}
    (he : e ∈ t.leaves) :
    2 :: atomHash e.1.toUTF8.toList ++ atomHash e.2.1 ∈ t.hashInputs :=
  List.mem_append_left _ (List.mem_flatMap.mpr ⟨e, he, by simp [leafInputs]⟩)

theorem mem_of_merkleParent_mem {t : ActionTree} (hl : t.LeavesHashed) {cur s : List UInt8}
    (hcur : cur.length = 32) (hs : s.length = 32) (hm : merkleParent cur s ∈ t.levels.flatten) :
    cur ∈ t.levels.flatten ∨ Collides (parentInput cur s :: t.hashInputs) := by
  have hmem : parentInput cur s ∈ parentInput cur s :: t.hashInputs := List.mem_cons_self
  rcases t.mem_levels hl hm with ⟨e, he, heq⟩ | ⟨a, ha, b, hb, hin, heq⟩
  · refine .inr (collides_of_length_ne hmem
      (List.mem_cons_of_mem _ (leafInput_mem_hashInputs he)) ?_ ?_)
    · rw [length_parentInput hcur hs, length_leafInput]
      decide
    · rw [← merkleParent_eq_hash, heq]
      rfl
  · by_cases hab : parentInput cur s = parentInput a b
    · have hla := length_of_mem_levels hl ha
      have hlb := length_of_mem_levels hl hb
      rcases eq_or_eq_of_parentInput_eq hcur hs hla hlb hab with rfl | rfl
      exacts [.inl ha, .inl hb]
    · refine .inr ⟨_, hmem, _, List.mem_cons_of_mem _ hin, hab, ?_⟩
      rw [← merkleParent_eq_hash, ← merkleParent_eq_hash, heq]

theorem mem_or_collides_of_foldl_mem {t : ActionTree} (hl : t.LeavesHashed) :
    ∀ (p : List (List UInt8)) {cur : List UInt8}, cur.length = 32 → (∀ s ∈ p, s.length = 32) →
      p.foldl merkleParent cur ∈ t.levels.flatten →
      cur ∈ t.levels.flatten ∨ Collides (foldInputs cur p ++ t.hashInputs)
  | [], _, _, _, h => .inl h
  | s :: p, cur, hcur, hp, h => by
    have hs := hp s List.mem_cons_self
    have hsub : parentInput cur s :: t.hashInputs ⊆ foldInputs cur (s :: p) ++ t.hashInputs := by
      intro x hx
      simp only [foldInputs, List.cons_append, List.mem_cons, List.mem_append] at hx ⊢
      tauto
    have hsub' : foldInputs (merkleParent cur s) p ++ t.hashInputs ⊆
        foldInputs cur (s :: p) ++ t.hashInputs := by
      intro x hx
      simp only [foldInputs, List.cons_append, List.mem_cons]
      exact .inr hx
    rcases mem_or_collides_of_foldl_mem hl p (length_merkleParent cur s)
      (fun x hx => hp x (List.mem_cons_of_mem _ hx)) h with hm | hcol
    · rcases t.mem_of_merkleParent_mem hl hcur hs hm with hc | hcol
      · exact .inl hc
      · exact .inr (hcol.mono hsub)
    · exact .inr (hcol.mono hsub')

theorem added_or_collides_of_actionLeaf_mem {t : ActionTree} (hl : t.LeavesHashed) {n : String}
    {h : List UInt8} (hx : actionLeaf n h ∈ t.levels.flatten) :
    (n, h) ∈ t.leaves.map (fun e => (e.1, e.2.1)) ∨ Collides (leafInputs n h ++ t.hashInputs) := by
  have hleaf : 2 :: atomHash n.toUTF8.toList ++ atomHash h ∈ leafInputs n h ++ t.hashInputs :=
    List.mem_append_left _ (by simp [leafInputs])
  rcases t.mem_levels hl hx with ⟨e, he, heq⟩ | ⟨a, ha, b, hb, hin, heq⟩
  · rcases eq_or_collides_of_actionLeaf_eq heq with ⟨rfl, rfl⟩ | hcol
    · exact .inl (List.mem_map.mpr ⟨e, he, rfl⟩)
    · refine .inr (hcol.mono fun x hx => ?_)
      rcases List.mem_append.mp hx with hx | hx
      · exact List.mem_append_left _ hx
      · exact List.mem_append_right _
          (List.mem_append_left _ (List.mem_flatMap.mpr ⟨e, he, hx⟩))
  · refine .inr (collides_of_length_ne hleaf (List.mem_append_right _ hin) ?_ ?_)
    · rw [length_leafInput, length_parentInput (length_of_mem_levels hl ha)
        (length_of_mem_levels hl hb)]
      decide
    · rw [← merkleParent_eq_hash, ← heq]
      rfl

theorem root_mem_levels {t : ActionTree} (hne : t.leaves ≠ []) : t.root ∈ t.levels.flatten := by
  have hL : t.leaves.map (·.2.2) ≠ [] := by simpa using hne
  have hlevels : t.levels ≠ [] := by
    intro h
    have := head?_levelsFrom t.leaves.length (t.leaves.map (·.2.2))
    rw [← levels, h] at this
    cases this
  obtain ⟨last, hlast⟩ := Option.isSome_iff_exists.mp (List.getLast?_isSome.mpr hlevels)
  have hmem : last ∈ t.levels := List.mem_of_getLast? hlast
  obtain ⟨r, rs, rfl⟩ := List.exists_cons_of_ne_nil (ne_nil_of_mem_levelsFrom hL hmem)
  have hroot : t.root = r := by
    have hempty : t.leaves.isEmpty = false := by simpa using hne
    simp [root, hempty, hlast]
  rw [hroot]
  exact List.mem_flatten.mpr ⟨_, hmem, List.mem_cons_self⟩

end ActionTree

/-- A proof that leads from the leaf of a name and a program hash to the root of a tree with
actions shows that this action was added to the tree, unless SHA-256 maps two distinct inputs
of the check or of the tree to one digest. -/
theorem verifyProof_sound {t : ActionTree} (ht : t.Reachable) (hne : t.leaves ≠ []) {name : String}
    {h : List UInt8} {p : List (List UInt8)}
    (hv : verifyProof (actionLeaf name h) p t.root = .ok true) :
    (name, h) ∈ t.leaves.map (fun e => (e.1, e.2.1)) ∨
      Collides (leafInputs name h ++ foldInputs (actionLeaf name h) p ++ t.hashInputs) := by
  obtain ⟨hleaf, -, hp, hb⟩ := verifyProof_eq_ok.mp hv
  have hfold : p.foldl merkleParent (actionLeaf name h) = t.root := by
    simpa using hb.symm
  have hl := ht.leavesHashed
  rcases t.mem_or_collides_of_foldl_mem hl p hleaf hp (hfold ▸ t.root_mem_levels hne) with hm | hcol
  · rcases t.added_or_collides_of_actionLeaf_mem hl hm with hadd | hcol
    · exact .inl hadd
    · refine .inr (hcol.mono fun x hx => ?_)
      rcases List.mem_append.mp hx with hx | hx
      · exact List.mem_append_left _ (List.mem_append_left _ hx)
      · exact List.mem_append_right _ hx
  · refine .inr (hcol.mono fun x hx => ?_)
    rcases List.mem_append.mp hx with hx | hx
    · exact List.mem_append_left _ (List.mem_append_right _ hx)
    · exact List.mem_append_right _ hx

/-- The tree of one action, named `go`: its leaf with no siblings leads to its root. -/
theorem verifyProof_sound_go :
    ActionTree.Reachable ⟨[("go", List.replicate 32 7, actionLeaf "go" (List.replicate 32 7))],
      [(.str "go", 0)]⟩ ∧
    ActionTree.leaves ⟨[("go", List.replicate 32 7, actionLeaf "go" (List.replicate 32 7))],
      [(.str "go", 0)]⟩ ≠ [] ∧
    verifyProof (actionLeaf "go" (List.replicate 32 7)) []
      (ActionTree.root ⟨[("go", List.replicate 32 7, actionLeaf "go" (List.replicate 32 7))],
        [(.str "go", 0)]⟩) = .ok true ∧
    (("go", List.replicate 32 7) ∈
        (ActionTree.leaves ⟨[("go", List.replicate 32 7, actionLeaf "go" (List.replicate 32 7))],
          [(.str "go", 0)]⟩).map (fun e => (e.1, e.2.1)) ∨
      Collides (leafInputs "go" (List.replicate 32 7) ++
        foldInputs (actionLeaf "go" (List.replicate 32 7)) [] ++
        ActionTree.hashInputs ⟨[("go", List.replicate 32 7,
          actionLeaf "go" (List.replicate 32 7))], [(.str "go", 0)]⟩)) :=
  have hr : ActionTree.Reachable ⟨[("go", List.replicate 32 7,
      actionLeaf "go" (List.replicate 32 7))], [(.str "go", 0)]⟩ :=
    @ActionTree.Reachable.accepted _ _ (.str "go") (List.replicate 32 7) .empty rfl
  have hne : ActionTree.leaves ⟨[("go", List.replicate 32 7,
      actionLeaf "go" (List.replicate 32 7))], [(.str "go", 0)]⟩ ≠ [] :=
    List.cons_ne_nil _ _
  have hv : verifyProof (actionLeaf "go" (List.replicate 32 7)) []
      (ActionTree.root ⟨[("go", List.replicate 32 7, actionLeaf "go" (List.replicate 32 7))],
        [(.str "go", 0)]⟩) = .ok true :=
    verifyProof_eq_ok.mpr ⟨length_actionLeaf _ _, length_actionLeaf _ _,
      fun _ h => absurd h List.not_mem_nil, (beq_self_eq_true _).symm⟩
  ⟨hr, hne, hv, verifyProof_sound hr hne hv⟩

end PuzzleKit
