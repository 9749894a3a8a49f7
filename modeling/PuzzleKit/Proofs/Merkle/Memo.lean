import PuzzleKit.Action.Memo
import PuzzleKit.Proofs.Merkle.Sound

/-!
# Memoised action trees keep their levels true

A memoised tree keeps the levels it last built until an action is added, so the levels it keeps
are always those of its leaves (`MemoTree.Coherent`), and the root and the proofs it answers are
those of its leaves (`MemoTree.root_run`, `MemoTree.proof_run`).

An insertion records the name's position before it makes the leaf from the name's text. So a
refused insertion keeps the leaves, and keeps the index too, except for a name that is not
text: that one stays recorded at the position the next leaf takes (`ActionTree.run_insert_error`).
The text names of the index stay exactly the names of the leaves at their positions
(`ActionTree.Indexed`), so over every session the leaves are those of a tree built afresh from
the accepted additions, which answers the same root and the same proofs of text names
(`MemoTree.session_invariant`).
-/

namespace PuzzleKit

/-- Whether a host value is text. -/
def Value.isText : Value → Bool
  | .str _ => true
  | _ => false

/-- The answer of a run, whatever state it leaves. -/
def answerOf {ε σ α : Type} : EStateM.Result ε σ α → Except ε α
  | .ok a _ => .ok a
  | .error e _ => .error e

/-- The state a run leaves, answered or failed. -/
def stateOf {ε σ α : Type} : EStateM.Result ε σ α → σ
  | .ok _ s => s
  | .error _ s => s

namespace ActionTree

theorem levels_of_leaves {t t' : ActionTree} (h : t'.leaves = t.leaves) : t'.levels = t.levels := by
  simp [levels, h]

theorem root_of_leaves {t t' : ActionTree} (h : t'.leaves = t.leaves) : t'.root = t.root := by
  simp [root, levels_of_leaves h, h]

end ActionTree

theorem Value.isText_of_itemEq_str {s : String} {v : Value} (h : Value.itemEq (.str s) v = true) :
    v.isText = true := by
  cases v <;> simp_all [Value.itemEq, Value.equal, Value.isNaN, Value.isText]

namespace ActionTree

/-- The index a tree built afresh from leaves has: each name at its position. -/
def freshIndex (leaves : List (String × List UInt8 × List UInt8)) : List (Value × Nat) :=
  leaves.zipIdx.map fun p => (Value.str p.1.1, p.2)

theorem freshIndex_append_singleton (L : List (String × List UInt8 × List UInt8))
    (e : String × List UInt8 × List UInt8) :
    freshIndex (L ++ [e]) = freshIndex L ++ [(.str e.1, L.length)] := by
  simp [freshIndex, List.zipIdx_append]

/-- What insertions keep of a tree, accepted or refused. The text names of the index are the
names of the leaves at their positions, and any other name stands at a position no later than
the next leaf's; no two leaves share a name, and each holds a 32-byte program hash and the leaf
of its name and program hash. -/
structure Indexed (t : ActionTree) : Prop where
  text : t.index.filter (·.1.isText) = freshIndex t.leaves
  other : ∀ p ∈ t.index, p.1.isText = false → p.2 ≤ t.leaves.length
  nodup : t.names.Nodup
  sized : ∀ e ∈ t.leaves, e.2.1.length = 32
  hashed : t.LeavesHashed

theorem indexed_empty : ({} : ActionTree).Indexed :=
  ⟨rfl, fun _ h => by simp at h, List.nodup_nil, fun _ h => by simp at h, fun _ h => by simp at h⟩

/-- A refused insertion keeps the leaves, and keeps the index, except that a name that is not
text is recorded at the position the next leaf takes. -/
theorem run_insert_error {t t' : ActionTree} {name : Value} {h : List UInt8} {e : Failure}
    (hr : (insert name h).run t = .error e t') :
    t'.leaves = t.leaves ∧ (t'.index = t.index ∨
      name.isText = false ∧ t'.index = t.index ++ [(name, t.leaves.length)]) := by
  rw [run_insert] at hr
  split at hr <;> simp only [reduceCtorEq, EStateM.Result.error.injEq] at hr <;> obtain ⟨-, rfl⟩ := hr
  · exact ⟨rfl, .inl rfl⟩
  · exact ⟨rfl, .inl rfl⟩
  · exact ⟨rfl, .inl rfl⟩
  · -- the name was recorded, and then it had no text
    rename_i hu
    refine ⟨rfl, .inr ⟨?_, rfl⟩⟩
    cases name <;> simp_all [Value.utf8Text, Value.isText]

theorem run_insert_ok {t t' : ActionTree} {name : Value} {h : List UInt8} {u : Unit}
    (hr : (insert name h).run t = .ok u t') :
    ∃ s, name = .str s ∧ t.position? name = .ok none ∧ h.length = 32 ∧
      t' = { leaves := t.leaves ++ [(s, h, actionLeaf s h)],
             index := t.index ++ [(name, t.leaves.length)] } := by
  rw [run_insert] at hr
  split at hr <;> simp only [reduceCtorEq, EStateM.Result.ok.injEq] at hr
  rename_i hp hc hu
  obtain ⟨-, rfl⟩ := hr
  refine ⟨_, ?_, hp, ?_, rfl⟩
  · cases name <;> simp only [Value.utf8Text, reduceCtorEq, Except.ok.injEq] at hu
    rw [hu]
  · unfold checkHash at hc
    split at hc
    · assumption
    · cases hc

theorem eq_of_leaves_index {t t' : ActionTree} (hl : t'.leaves = t.leaves)
    (hi : t'.index = t.index) : t' = t := by
  cases t
  cases t'
  cases hl
  cases hi
  rfl

theorem position?_str_eq_none {t : ActionTree} {s : String} :
    t.position? (.str s) = .ok none ↔ ∀ p ∈ t.index, Value.itemEq (.str s) p.1 = false := by
  rw [position?_str]
  simp [List.find?_eq_none]

theorem Indexed.not_mem_names {t : ActionTree} (ht : t.Indexed) {s : String}
    (hp : t.position? (.str s) = .ok none) : s ∉ t.names := by
  intro hs
  obtain ⟨e, he, rfl⟩ := List.mem_map.mp hs
  obtain ⟨i, hi⟩ := List.getElem?_of_mem he
  have hmem : (Value.str e.1, i) ∈ t.index := by
    have : (Value.str e.1, i) ∈ t.index.filter (·.1.isText) := by
      rw [ht.text]
      exact List.mem_map.mpr ⟨(e, i), List.mem_zipIdx_iff_getElem?.mpr hi, rfl⟩
    exact List.mem_of_mem_filter this
  have := position?_str_eq_none.mp hp _ hmem
  simp [Build.Puzzle.itemEq_str] at this

theorem Indexed.insert_error {t t' : ActionTree} {name : Value} {h : List UInt8} {e : Failure}
    (ht : t.Indexed) (hr : (insert name h).run t = .error e t') : t'.Indexed := by
  obtain ⟨hl, hi | ⟨hn, hi⟩⟩ := run_insert_error hr
  · rwa [eq_of_leaves_index hl hi]
  · -- only a name that is not text was recorded, at the next leaf's position
    refine ⟨?_, ?_, ?_, ?_, ?_⟩
    · simp [hi, hl, List.filter_append, hn, ht.text]
    · intro p hp hpn
      rw [hi, List.mem_append, List.mem_singleton] at hp
      rcases hp with hp | rfl
      · rw [hl]
        exact ht.other p hp hpn
      · simp [hl]
    · simpa [names, hl] using ht.nodup
    · simpa [hl] using ht.sized
    · simpa [LeavesHashed, hl] using ht.hashed

theorem Indexed.insert_ok {t t' : ActionTree} {name : Value} {h : List UInt8} {u : Unit}
    (ht : t.Indexed) (hr : (insert name h).run t = .ok u t') : t'.Indexed := by
  have hhashed := LeavesHashed.of_run_insert ht.hashed (.inl hr)
  obtain ⟨s, rfl, hp, hsize, rfl⟩ := run_insert_ok hr
  have hnew := ht.not_mem_names hp
  refine ⟨?_, ?_, ?_, ?_, hhashed⟩
  · rw [List.filter_append, ht.text, freshIndex_append_singleton]
    simp [Value.isText]
  · intro p hp hpn
    simp only [List.mem_append, List.mem_singleton] at hp
    rcases hp with hp | rfl
    · have := ht.other p hp hpn
      simp only [List.length_append, List.length_singleton]
      omega
    · simp [Value.isText] at hpn
  · simp only [names, List.map_append, List.map_singleton]
    rw [← List.concat_eq_append]
    exact ht.nodup.concat hnew
  · intro e he
    rcases List.mem_append.mp he with he | he
    · exact ht.sized e he
    · simp only [List.mem_singleton] at he
      rw [he]
      exact hsize

theorem Reachable.indexed {t : ActionTree} (hr : t.Reachable) : t.Indexed := by
  induction hr with
  | empty => exact indexed_empty
  | accepted _ hr ih => exact ih.insert_ok hr
  | refused _ hr ih => exact ih.insert_error hr

theorem built_of_leaves : ∀ (L : List (String × List UInt8 × List UInt8)),
    (L.map (·.1)).Nodup → (∀ e ∈ L, e.2.1.length = 32) → (∀ e ∈ L, e.2.2 = actionLeaf e.1 e.2.1) →
    Built { leaves := L, index := freshIndex L } := by
  intro L
  induction L using List.reverseRecOn with
  | nil => intro _ _ _; exact .empty
  | append_singleton L e ih =>
    intro hnodup hsized hhashed
    simp only [List.map_append, List.map_singleton, List.nodup_append, List.mem_singleton] at hnodup
    have hprev := ih hnodup.1 (fun x hx => hsized x (by simp [hx]))
      (fun x hx => hhashed x (by simp [hx]))
    -- the last action is new, so adding it to the tree of the others appends its leaf
    have hnew : ∀ p ∈ freshIndex L, Value.itemEq (.str e.1) p.1 = false := by
      intro p hp
      obtain ⟨⟨x, i⟩, hx, rfl⟩ := List.mem_map.mp hp
      have hne : x.1 ≠ e.1 := fun h => hnodup.2.2 x.1 (List.mem_map_of_mem (List.fst_mem_of_mem_zipIdx hx)) e.1 rfl h
      simpa [Build.Puzzle.itemEq_str] using Ne.symm hne
    have hsize : e.2.1.length = 32 := hsized e (by simp)
    have hleaf : e.2.2 = actionLeaf e.1 e.2.1 := hhashed e (by simp)
    refine @Built.add _ _ e.1 e.2.1 hprev ?_
    unfold add
    rw [run_insert, position?_str_eq_none.mpr hnew]
    simp only [checkHash, hsize, if_true, Value.utf8Text]
    obtain ⟨n, h, l⟩ := e
    simp only at hleaf
    subst hleaf
    rw [freshIndex_append_singleton]

/-- The tree with the text names of its index only. -/
def textual (t : ActionTree) : ActionTree := { leaves := t.leaves, index := t.index.filter (·.1.isText) }

theorem position?_textual (t : ActionTree) (s : String) :
    t.textual.position? (.str s) = t.position? (.str s) := by
  rw [textual, position?_str, position?_str, List.find?_filter]
  congr 3
  funext p
  cases h : Value.itemEq (.str s) p.1
  · simp
  · simp [Value.isText_of_itemEq_str h]

theorem proof_textual (t : ActionTree) (s : String) : t.textual.proof (.str s) = t.proof (.str s) := by
  simp only [proof, lookup, position?_textual]
  rfl

theorem root_textual (t : ActionTree) : t.textual.root = t.root := rfl

theorem Indexed.built {t : ActionTree} (ht : t.Indexed) : t.textual.Built := by
  rw [textual, ht.text]
  exact built_of_leaves t.leaves ht.nodup ht.sized ht.hashed

end ActionTree

namespace MemoTree

/-- The kept levels, if any, are those of the leaves. -/
def Coherent (m : MemoTree) : Prop := ∀ ls, m.levels? = some ls → ls = m.tree.levels

/-- The tree with the levels of its leaves kept. -/
def withLevels (m : MemoTree) : MemoTree := { m with levels? := some m.tree.levels }

theorem coherent_withLevels (m : MemoTree) : m.withLevels.Coherent := by
  intro ls h
  cases h
  rfl

theorem read_run {α : Type} (f : ActionTree → Except Failure α) (m : MemoTree) :
    (read f).run m = match f m.tree with
      | .ok a => .ok a m
      | .error e => .error e m := by
  simp only [read, EStateM.run_bind, EStateM.run_get]
  cases f m.tree <;> rfl

theorem build_run {m : MemoTree} (hm : m.Coherent) : build.run m = .ok m.tree.levels m.withLevels := by
  simp only [build, EStateM.run_bind, EStateM.run_get]
  cases h : m.levels? with
  | none => rfl
  | some ls =>
    -- the kept levels are already those of the leaves
    obtain rfl := hm ls h
    obtain ⟨t, l⟩ := m
    simp only at h
    subst h
    rfl

theorem root_run {m : MemoTree} (hm : m.Coherent) :
    root.run m = .ok m.tree.root (if m.tree.leaves.isEmpty then m else m.withLevels) := by
  simp only [root, EStateM.run_bind, EStateM.run_get]
  by_cases he : m.tree.leaves.isEmpty
  · simp [he, ActionTree.root]
  · simp [he, build_run hm, ActionTree.root]

theorem proof_run {m : MemoTree} (hm : m.Coherent) (name : Value) :
    (proof name).run m = match m.tree.lookup name with
      | .ok i => .ok (proofPath m.tree.levels i) m.withLevels
      | .error e => .error e m := by
  simp only [proof, EStateM.run_bind, read_run]
  cases m.tree.lookup name with
  | error e => rfl
  | ok i => simp [build_run hm]

theorem add_run (name : Value) (h : List UInt8) (m : MemoTree) :
    (add name h).run m = match (ActionTree.insert name h).run m.tree with
      | .ok _ t => .ok () { tree := t, levels? := none }
      | .error e t => .error e { m with tree := t } := by
  simp only [add, EStateM.run_bind, EStateM.run_get]
  cases (ActionTree.insert name h).run m.tree <;> rfl

theorem stateOf_read_bind {α β : Type} (f : ActionTree → Except Failure α) (g : α → MemoM β)
    (m : MemoTree) (hg : ∀ a, stateOf ((g a).run m) = m) : stateOf ((read f >>= g).run m) = m := by
  rw [EStateM.run_bind, read_run]
  cases f m.tree with
  | ok a => exact hg a
  | error e => rfl

theorem call_state {m : MemoTree} (hm : m.Coherent) {c : TreeCall} (hc : ∀ name h, c ≠ .add name h) :
    stateOf ((call c).run m) = m ∨ stateOf ((call c).run m) = m.withLevels := by
  have hpure : ∀ {α : Type} (a : α) (m' : MemoTree), stateOf ((pure a : MemoM α).run m') = m' :=
    fun _ _ => rfl
  cases c with
  | add name h => exact absurd rfl (hc name h)
  | root =>
    simp only [call, EStateM.run_bind, root_run hm]
    split <;> simp [stateOf]
  | proof name =>
    simp only [call, EStateM.run_bind, proof_run hm]
    cases m.tree.lookup name <;> simp [stateOf]
  | verifyOwn name other =>
    simp only [call, EStateM.run_bind, proof_run hm]
    cases m.tree.lookup other with
    | error e => simp [stateOf]
    | ok i =>
      have hw : m.withLevels.withLevels = m.withLevels := rfl
      simp only [root_run (coherent_withLevels m), hw, ite_self]
      exact .inr (stateOf_read_bind _ _ _ fun _ => hpure _ _)
  | verify name p r => exact .inl (stateOf_read_bind _ _ _ fun _ => hpure _ _)
  | check name p r => exact .inl (stateOf_read_bind _ _ _ fun _ => hpure _ _)
  | names => exact .inl rfl
  | count => exact .inl rfl
  | contains name => exact .inl (stateOf_read_bind _ _ _ fun _ => hpure _ _)
  | leaf name => exact .inl (stateOf_read_bind _ _ _ fun _ => hpure _ _)
  | programHash name => exact .inl (stateOf_read_bind _ _ _ fun _ => hpure _ _)

/-- What every call keeps: the kept levels are those of the leaves, and the tree is indexed. -/
structure Inv (m : MemoTree) : Prop where
  coherent : m.Coherent
  indexed : m.tree.Indexed

/-- The memoised trees that a session reaches from the empty one, each call answered or not. -/
inductive Reachable : MemoTree → Prop
  | empty : Reachable {}
  | called {m : MemoTree} (c : TreeCall) : Reachable m → Reachable (stateOf ((call c).run m))

theorem add_refused {m m' : MemoTree} {name : Value} {h : List UInt8} {e : Failure}
    (hr : (add name h).run m = .error e m') :
    m'.tree.leaves = m.tree.leaves ∧ m'.levels? = m.levels? ∧ (m'.tree.index = m.tree.index ∨
      name.isText = false ∧ m'.tree.index = m.tree.index ++ [(name, m.tree.leaves.length)]) := by
  rw [add_run] at hr
  split at hr
  · cases hr
  · next t hins =>
    cases hr
    exact ⟨(ActionTree.run_insert_error hins).1, rfl, (ActionTree.run_insert_error hins).2⟩

theorem Inv.step {m : MemoTree} (hm : m.Inv) (c : TreeCall) : (stateOf ((call c).run m)).Inv := by
  by_cases hc : ∃ name h, c = .add name h
  · obtain ⟨name, h, rfl⟩ := hc
    have hadd : stateOf ((call (.add name h)).run m) = stateOf ((add name h).run m) := by
      simp only [call, EStateM.run_bind]
      cases (add name h).run m <;> rfl
    rw [hadd]
    cases hr : (add name h).run m with
    | ok u m' =>
      show m'.Inv
      rw [add_run] at hr
      split at hr
      · next t hins =>
        cases hr
        exact ⟨fun _ h => (by cases h), hm.indexed.insert_ok hins⟩
      · cases hr
    | error e m' =>
      show m'.Inv
      obtain ⟨hl, hlev, -⟩ := add_refused hr
      refine ⟨fun ls h => ?_, ?_⟩
      · rw [hlev] at h
        rw [hm.coherent ls h, ActionTree.levels_of_leaves hl]
      · rw [add_run] at hr
        split at hr
        · cases hr
        · next t hins =>
          cases hr
          exact hm.indexed.insert_error hins
  · simp only [not_exists] at hc
    rcases call_state hm.coherent hc with h | h <;> rw [h]
    · exact hm
    · exact ⟨coherent_withLevels m, hm.indexed⟩

theorem Reachable.inv {m : MemoTree} (hm : m.Reachable) : m.Inv := by
  induction hm with
  | empty => exact ⟨fun _ h => (by cases h), ActionTree.indexed_empty⟩
  | called c _ ih => exact ih.step c

theorem root_answer {m : MemoTree} (hm : m.Coherent) : answerOf (root.run m) = .ok m.tree.root := by
  rw [root_run hm]
  rfl

theorem proof_answer {m : MemoTree} (hm : m.Coherent) (name : Value) :
    answerOf ((proof name).run m) = m.tree.proof name := by
  rw [proof_run hm]
  simp only [ActionTree.proof]
  cases m.tree.lookup name <;> rfl

/-- Over every session, a memoised tree keeps either no levels or the levels of its leaves; its
leaves have distinct names, 32-byte program hashes and their own leaf hashes; the text names of
its index are the names of the leaves at their positions, so that the tree of its leaves and
these names is the one that adding the accepted actions in order builds, and the root and the
proofs of text names it answers are that tree's. A refused addition keeps the leaves and the
kept levels, and the index, except that a name that is not text stays recorded at the position
the next leaf takes. -/
theorem session_invariant {m : MemoTree} (hm : m.Reachable) :
    (m.levels? = none ∨ m.levels? = some m.tree.levels) ∧
    m.tree.names.Nodup ∧
    (∀ e ∈ m.tree.leaves, e.2.1.length = 32 ∧ e.2.2 = actionLeaf e.1 e.2.1) ∧
    m.tree.index.filter (·.1.isText) = ActionTree.freshIndex m.tree.leaves ∧
    m.tree.textual.Built ∧
    answerOf (root.run m) = .ok m.tree.textual.root ∧
    (∀ s : String, answerOf ((proof (.str s)).run m) = m.tree.textual.proof (.str s)) ∧
    ∀ (name : Value) (h : List UInt8) (e : Failure) (m' : MemoTree),
      (add name h).run m = .error e m' →
      m'.tree.leaves = m.tree.leaves ∧ m'.levels? = m.levels? ∧
      (m'.tree.index = m.tree.index ∨
        name.isText = false ∧ m'.tree.index = m.tree.index ++ [(name, m.tree.leaves.length)]) := by
  obtain ⟨hcoh, hidx⟩ := hm.inv
  have hlevels : m.levels? = none ∨ m.levels? = some m.tree.levels := by
    cases h : m.levels? with
    | none => exact .inl rfl
    | some ls => exact .inr (by rw [hcoh ls h])
  refine ⟨hlevels, hidx.nodup, fun e he => ⟨hidx.sized e he, hidx.hashed e he⟩, hidx.text, hidx.built,
    ?_, fun s => ?_, fun name h e m' hr => add_refused hr⟩
  · rw [root_answer hcoh, ActionTree.root_textual]
  · rw [proof_answer hcoh, ActionTree.proof_textual]

theorem session_invariant_refused :
    (stateOf ((call (.add (.int 5) (List.replicate 32 0))).run {})).tree.index = [(.int 5, 0)] ∧
    (stateOf ((call (.add (.int 5) (List.replicate 32 0))).run {})).tree.leaves = [] ∧
    (stateOf ((call (.add (.int 5) (List.replicate 32 0))).run {})).tree.textual.Built :=
  ⟨rfl, rfl, (session_invariant (.called (.add (.int 5) (List.replicate 32 0)) .empty)).2.2.2.2.1⟩

end MemoTree

end PuzzleKit
