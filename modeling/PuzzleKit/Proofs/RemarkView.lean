import PuzzleKit.Tree.Layout

/-!
# What the layout reads of the remarks

A part keeps its remarks with it or, when it stands in several places, under a key of the
remark store. The layout reads them only through `Noted.notesIn`, so it writes a part exactly as
it writes the part's view (`Noted.view`): the same tree with every part carrying the remarks it
shows, read against any store (`Style.write_view`).

A store extends another when it keeps the remarks of every key the other has handed out and
adds only keys the other had not (`Remarks.Extends`). A part whose keys were all handed out
keeps its view in every extension (`Noted.view_extends`); this is what makes later layouts of
the same parts read the same.
-/

namespace PuzzleKit

/-- A key handed out before the joint count `j`: every key that is not a joint, and the joints
below `j`. -/
def Key.Below (j : Nat) : Key → Prop
  | .joint i => i < j
  | _ => True

/-- A tag whose key, if it has one, was handed out before the joint count `j`. -/
def Tag.Below (j : Nat) : Tag → Prop
  | .own _ => True
  | .shared k => k.Below j

theorem Key.Below.mono {j j' : Nat} (hj : j ≤ j') : ∀ {k : Key}, k.Below j → k.Below j'
  | .joint _, h => Nat.lt_of_lt_of_le h hj
  | .nil, _ | .one, _ | .tail _, _ => trivial

theorem Tag.Below.mono {j j' : Nat} (hj : j ≤ j') : ∀ {t : Tag}, t.Below j → t.Below j'
  | .own _, _ => trivial
  | .shared _, h => Key.Below.mono hj h

namespace Remarks

theorem find?_attach_entries (r : Remarks) (k k' : Key) (ns : List String) :
    ((r.entries.map fun (e : Key × List String) =>
        if e.1 == k then (e.1, e.2 ++ ns) else (e.1, e.2)).find? (·.1 == k')).map (·.2) =
      (r.entries.find? (·.1 == k')).map fun e => if k' = k then e.2 ++ ns else e.2 := by
  rw [List.find?_map]
  have hp : ((·.1 == k') ∘ fun (e : Key × List String) =>
      if e.1 == k then (e.1, e.2 ++ ns) else (e.1, e.2)) = (·.1 == k') := by
    funext e
    simp only [Function.comp]
    split <;> rfl
  rw [hp]
  cases hf : r.entries.find? (·.1 == k') with
  | none => rfl
  | some e =>
    have he : e.1 = k' := by simpa using List.find?_some hf
    subst he
    by_cases hk : e.1 = k <;> simp [hk]

/-- Attaching remarks under a key adds them after those under that key, and no other key
changes. -/
theorem get_attach (r : Remarks) (k k' : Key) (ns : List String) :
    (r.attach k ns).get k' = if k' = k then r.get k ++ ns else r.get k' := by
  unfold attach
  split
  · next hns =>
    rw [List.isEmpty_iff.mp hns]
    split <;> simp_all
  · split
    · next hany =>
      simp only [get]
      rw [find?_attach_entries]
      split
      · next hk =>
        subst hk
        obtain ⟨e, he, hek⟩ := List.any_eq_true.mp hany
        have hsome : (r.entries.find? (·.1 == k')).isSome := List.find?_isSome.mpr ⟨e, he, hek⟩
        obtain ⟨e', he'⟩ := Option.isSome_iff_exists.mp hsome
        simp [he']
      · next hk =>
        cases r.entries.find? (·.1 == k') <;> simp
    · next hany =>
      simp only [get, List.find?_append]
      have hnone : r.entries.find? (·.1 == k) = none := by
        rw [List.find?_eq_none]
        intro e he hek
        exact hany (List.any_eq_true.mpr ⟨e, he, hek⟩)
      split
      · next hk =>
        subst hk
        simp [hnone]
      · next hk =>
        cases hf : r.entries.find? (·.1 == k') with
        | some e => rfl
        | none => simp [Ne.symm hk]

@[simp] theorem joints_attach (r : Remarks) (k : Key) (ns : List String) :
    (r.attach k ns).joints = r.joints := by
  unfold attach
  split
  · rfl
  · split <;> rfl

/-- A store is fresh above its joint count: no remarks stand under a joint it has not handed
out. -/
def Fresh (r : Remarks) : Prop := ∀ i, r.joints ≤ i → r.get (.joint i) = []

/-- `r'` extends `r`: it has handed out at least the joints of `r`, and keeps the remarks of
every key `r` has handed out. -/
def Extends (r r' : Remarks) : Prop :=
  r.joints ≤ r'.joints ∧ ∀ k : Key, k.Below r.joints → r'.get k = r.get k

theorem Extends.refl (r : Remarks) : Extends r r := ⟨Nat.le_refl _, fun _ _ => rfl⟩

theorem Extends.trans {r r' r'' : Remarks} (h : Extends r r') (h' : Extends r' r'') :
    Extends r r'' :=
  ⟨Nat.le_trans h.1 h'.1, fun k hk => (h'.2 k (Key.Below.mono h.1 hk)).trans (h.2 k hk)⟩

theorem attach_nil (r : Remarks) (k : Key) : r.attach k [] = r := by
  simp [attach]

theorem Fresh.attach_tail {r : Remarks} (h : r.Fresh) (path : List Nat) (ns : List String) :
    (r.attach (.tail path) ns).Fresh := by
  intro i hi
  rw [get_attach, if_neg (by simp)]
  exact h i (by rwa [joints_attach] at hi)

end Remarks

namespace Noted

/-- Every key a part and its parts carry was handed out before the joint count `j`. -/
def Below (j : Nat) : Noted → Prop
  | .atom _ _ t => t.Below j
  | .cons f r t => t.Below j ∧ f.Below j ∧ r.Below j

theorem Below.mono {j j' : Nat} (hj : j ≤ j') : ∀ {n : Noted}, n.Below j → n.Below j'
  | .atom _ _ _, h => Tag.Below.mono hj h
  | .cons _ _ _, ⟨ht, hf, hr⟩ => ⟨Tag.Below.mono hj ht, Below.mono hj hf, Below.mono hj hr⟩

theorem notesIn_extends {r r' : Remarks} (h : r.Extends r') {n : Noted} (hn : n.tag.Below r.joints) :
    n.notesIn r' = n.notesIn r := by
  unfold notesIn
  split
  · rfl
  · next k hk =>
    rw [hk] at hn
    exact h.2 k hn

/-- The part as it shows: the same tree, each part carrying the remarks it shows. -/
def view (rm : Remarks) : Noted → Noted
  | .atom b h t => .atom b h (.own ((Noted.atom b h t).notesIn rm))
  | .cons f r t => .cons (f.view rm) (r.view rm) (.own ((Noted.cons f r t).notesIn rm))

@[simp] theorem tree_view (rm : Remarks) : ∀ n : Noted, (n.view rm).tree = n.tree
  | .atom _ _ _ => rfl
  | .cons f r _ => by simp only [view, tree, tree_view rm f, tree_view rm r]

@[simp] theorem notesIn_view (rm sn : Remarks) (n : Noted) : (n.view rm).notesIn sn = n.notesIn rm := by
  cases n <;> rfl

@[simp] theorem isNil_view (rm : Remarks) (n : Noted) : (n.view rm).isNil = n.isNil := by
  cases n <;> rfl

/-- A part whose keys were all handed out shows the same in every extension of the store. -/
theorem view_extends {r r' : Remarks} (h : r.Extends r') : ∀ {n : Noted}, n.Below r.joints →
    n.view r' = n.view r
  | .atom b hi t, hn => by
    simp only [view, notesIn_extends h (n := .atom b hi t) hn]
  | .cons f rest t, ⟨ht, hf, hr⟩ => by
    simp only [view, notesIn_extends h (n := .cons f rest t) ht, view_extends h hf,
      view_extends h hr]

theorem view_ofList (rm : Remarks) (items : List Noted) (tail : Noted) :
    (Noted.ofList items tail).view rm = Noted.ofList (items.map (view rm)) (tail.view rm) := by
  induction items with
  | nil => rfl
  | cons x xs ih =>
    simp only [ofList, List.foldr_cons, List.map_cons] at ih ⊢
    rw [view, ih]
    rfl

theorem listDepth_view (rm : Remarks) : ∀ n : Noted,
    (n.view rm).listDepth = n.listDepth ∧
      listDepth.chainDepth (n.view rm) = listDepth.chainDepth n
  | .atom _ _ _ => ⟨rfl, rfl⟩
  | .cons f r _ => by
    simp only [view, listDepth, listDepth.chainDepth, (listDepth_view rm f).1,
      (listDepth_view rm r).2, and_self]

@[simp] theorem hasNotes_view (rm sn : Remarks) : ∀ n : Noted,
    (n.view rm).hasNotes sn = n.hasNotes rm
  | .atom _ _ _ => rfl
  | .cons f r t => by
    simp only [view, hasNotes, hasNotes_view rm sn f, hasNotes_view rm sn r]
    rfl

@[simp] theorem chainHasNotes_view (rm sn : Remarks) : ∀ n : Noted,
    (n.view rm).chainHasNotes sn = n.chainHasNotes rm
  | .atom _ _ _ => rfl
  | .cons f r t => by simp only [view, chainHasNotes, hasNotes_view, chainHasNotes_view rm sn r]

end Noted

namespace Style

variable (st : Style) (rm sn : Remarks)

@[simp] theorem flat_view (n : Noted) : st.flat (n.view rm) = st.flat n := by
  simp [flat]

theorem onHeadLine_view (indent : String) : ∀ (k : Nat) (n : Noted),
    st.onHeadLine sn indent k (n.view rm) = st.onHeadLine rm indent k n
  | 0, _ => by simp only [onHeadLine]
  | _ + 1, .atom _ _ _ => by simp only [Noted.view, onHeadLine]
  | k + 1, .cons f r _ => by
    simp only [Noted.view, onHeadLine, Noted.hasNotes_view, flat_view, onHeadLine_view indent k r]

theorem takeItems_view : ∀ (k : Nat) (n : Noted),
    takeItems k (n.view rm) = (takeItems k n).map (Noted.view rm)
  | 0, _ => rfl
  | _ + 1, .atom _ _ _ => rfl
  | k + 1, .cons f r _ => by simp only [Noted.view, takeItems, takeItems_view k r, List.map_cons]

theorem headAtom?_view (n : Noted) : headAtom? sn (n.view rm) = headAtom? rm n := by
  cases n <;> rfl

theorem noteLines_view (n : Noted) (indent : String) :
    noteLines sn (n.view rm) indent = noteLines rm n indent := by
  simp [noteLines]

theorem leaf_view (n : Noted) (indent : String) (depth : Nat) :
    st.leaf sn (n.view rm) indent depth = st.leaf rm n indent depth := by
  simp [leaf, noteLines_view]

theorem fitsFlat_view (n : Noted) (indent : String) :
    st.fitsFlat sn (n.view rm) indent = st.fitsFlat rm n indent := by
  simp [fitsFlat, (Noted.listDepth_view rm n).1]

mutual

theorem block_view : ∀ (n : Noted) (indent : String) (depth : Nat),
    st.block sn (n.view rm) indent depth = st.block rm n indent depth
  | .atom b h t, indent, depth => by
    have hv : (Noted.atom b h t).view rm = .atom b h (.own ((Noted.atom b h t).notesIn rm)) := rfl
    rw [hv, block, block, ← hv]
    · exact leaf_view st rm sn _ indent depth
    all_goals simp
  | .cons f r t, indent, depth => by
    have hv : (Noted.cons f r t).view rm =
        .cons (f.view rm) (r.view rm) (.own ((Noted.cons f r t).notesIn rm)) := rfl
    rw [hv, block, block, ← hv]
    simp only [noteLines_view, fitsFlat_view, flat_view, headAtom?_view, onHeadLine_view,
      takeItems_view, List.map_map, Function.comp_def, chain_view r, block_view f]

theorem chain_view : ∀ (n : Noted) (indent : String) (depth skip : Nat),
    st.chain sn (n.view rm) indent depth skip = st.chain rm n indent depth skip
  | .cons f r t, indent, depth, k + 1 => by
    have hv : (Noted.cons f r t).view rm =
        .cons (f.view rm) (r.view rm) (.own ((Noted.cons f r t).notesIn rm)) := rfl
    rw [hv, chain, chain]
    exact chain_view r indent depth k
  | .cons f r t, indent, depth, 0 => by
    have hv : (Noted.cons f r t).view rm =
        .cons (f.view rm) (r.view rm) (.own ((Noted.cons f r t).notesIn rm)) := rfl
    rw [hv, chain, chain, block_view f, chain_view r]
  | .atom b h t, indent, depth, skip => by
    have hv : (Noted.atom b h t).view rm = .atom b h (.own ((Noted.atom b h t).notesIn rm)) := rfl
    rw [hv, chain, chain, ← hv]
    · simp only [Noted.isNil_view, leaf_view]
    all_goals simp
end

/-- A part is written as its view is written, against any store. -/
theorem write_view (trailing : List String) (n : Noted) :
    st.write sn trailing (n.view rm) = st.write rm trailing n := by
  simp only [write, flat_view, block_view]

theorem write_eq_of_view_eq {rm' : Remarks} {n n' : Noted} (h : n.view rm = n'.view rm')
    (trailing : List String) : st.write rm trailing n = st.write rm' trailing n' := by
  rw [← write_view st rm {} trailing n, h, write_view]

end Style

end PuzzleKit
