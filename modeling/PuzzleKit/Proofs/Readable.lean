import PuzzleKit.Build.Puzzle
import PuzzleKit.Proofs.Utf8
import PuzzleKit.Proofs.Reading

/-!
# Generated code reads back

Building a program reads its code back twice: the include files it needs are found from the
text of its symbols, and the names of its definitions are taken as text. Both decode the bytes
of a symbol atom as UTF-8 and fail on malformed bytes. Code whose every symbol atom holds the
UTF-8 form of some text (`Noted.Readable`) is read back without failure, and every include file
it is found to need is a known one. Symbols made from text are readable, and so is everything
the builders assemble from readable parts.
-/

namespace PuzzleKit

/-- A tree whose symbols are text: each symbol atom holds the UTF-8 form of a string. -/
def Tree.Readable : Tree → Prop
  | .atom b .symbol => ∃ s : String, s.toUTF8.toList = b
  | .atom _ _ => True
  | .cons f r => f.Readable ∧ r.Readable

namespace Noted

/-- Code whose tree is readable; the remarks on it do not matter. -/
def Readable (n : Noted) : Prop := n.tree.Readable

@[simp] theorem readable_cons {f r : Noted} {t : Tag} :
    (Noted.cons f r t).Readable ↔ f.Readable ∧ r.Readable := Iff.rfl

theorem readable_atom {b : List UInt8} {h : Hint} (t : Tag) (hh : h ≠ .symbol) :
    (Noted.atom b h t).Readable := by
  cases h <;> first | exact absurd rfl hh | exact trivial

@[simp] theorem readable_nil : Noted.nil.Readable := readable_atom _ (by decide)

@[simp] theorem readable_one : Noted.one.Readable := readable_atom _ (by decide)

theorem readable_withTag (t : Tag) {n : Noted} : (n.withTag t).Readable ↔ n.Readable := by
  rw [Readable, Readable, tree_withTag]

theorem readable_attach (rm : Remarks) (n : Noted) (ns : List String) :
    (n.attach rm ns).1.Readable ↔ n.Readable := by
  rw [Readable, Readable, tree_attach]

theorem readable_share (rm : Remarks) (n : Noted) : (n.share rm).1.Readable ↔ n.Readable := by
  unfold share
  split
  · exact readable_withTag _
  · exact Iff.rfl

theorem readable_ofList {items : List Noted} {tail : Noted} (h : ∀ x ∈ items, x.Readable)
    (ht : tail.Readable) : (Noted.ofList items tail).Readable := by
  induction items with
  | nil => exact ht
  | cons x xs ih =>
    exact ⟨h x List.mem_cons_self, ih fun y hy => h y (List.mem_cons_of_mem _ hy)⟩

@[simp] theorem readable_ofList_iff {items : List Noted} {tail : Noted} :
    (Noted.ofList items tail).Readable ↔ (∀ x ∈ items, x.Readable) ∧ tail.Readable := by
  induction items with
  | nil => simp [Noted.ofList]
  | cons x xs ih =>
    show x.Readable ∧ (Noted.ofList xs tail).Readable ↔ _
    rw [ih, List.forall_mem_cons, and_assoc]

end Noted

namespace Build

open Noted

@[simp] theorem readable_sym (s : String) : (sym s).Readable := ⟨s, rfl⟩

@[simp] theorem readable_str (s : String) : (str s).Readable := readable_atom _ (by decide)

@[simp] theorem readable_int (i : Int) : (int i).Readable := readable_atom _ (by decide)

theorem readable_call (op : String) {args : List Noted} (h : ∀ x ∈ args, x.Readable) :
    (call op args).Readable := by
  refine readable_ofList (fun x hx => ?_) readable_nil
  rcases List.mem_cons.mp hx with rfl | hx
  · exact readable_sym op
  · exact h x hx

@[simp] theorem readable_call_iff (op : String) {args : List Noted} :
    (call op args).Readable ↔ ∀ x ∈ args, x.Readable := by
  simp [call]

theorem readable_ifNode {c t e : Noted} (hc : c.Readable) (ht : t.Readable) (he : e.Readable) :
    (ifNode c t e).Readable := by
  refine readable_call _ fun x hx => ?_
  simp only [List.mem_cons, List.not_mem_nil, or_false] at hx
  rcases hx with rfl | rfl | rfl <;> assumption

theorem readable_consCondition {c r : Noted} (hc : c.Readable) (hr : r.Readable) :
    (consCondition c r).Readable := by
  refine readable_call _ fun x hx => ?_
  simp only [List.mem_cons, List.not_mem_nil, or_false] at hx
  rcases hx with rfl | rfl <;> assumption

theorem readable_failNode (m : Option String) : (failNode m).Readable := by
  cases m with
  | some m =>
    refine readable_ofList (fun x hx => ?_) readable_nil
    simp only [List.mem_cons, List.not_mem_nil, or_false] at hx
    rcases hx with rfl | rfl
    · exact readable_sym _
    · exact readable_str _
  | none => exact readable_call _ fun _ hx => absurd hx List.not_mem_nil

theorem readable_condition {name : String} {args : List Noted} {c : Noted}
    (hc : condition name args = .ok c) (h : ∀ x ∈ args, x.Readable) : c.Readable := by
  unfold condition at hc
  split at hc
  · cases hc
    refine readable_ofList (fun x hx => ?_) readable_nil
    rcases List.mem_cons.mp hx with rfl | hx
    · exact readable_sym _
    rcases List.mem_cons.mp hx with rfl | hx
    · exact readable_sym _
    · exact h x hx
  · cases hc

/-! ### Reading symbols back -/

theorem utf8Text_toUTF8 (s : String) : utf8Text s.toUTF8.toList = .ok s := by
  rw [utf8Text, Text.decodeUtf8_toUTF8]
  rfl

theorem symbolText_ok {n : Noted} (h : n.Readable) : ∃ t, symbolText n = pure t := by
  match n, h with
  | .atom b .symbol _, ⟨s, hs⟩ =>
    subst hs
    exact ⟨some s, by rw [symbolText, utf8Text_toUTF8]; rfl⟩
  | .atom _ .int _, _ | .atom _ .bytes _, _ | .atom _ .string _, _ | .atom _ (.other _) _, _
  | .cons _ _ _, _ => exact ⟨none, rfl⟩

theorem headSymbol_ok {n : Noted} (h : n.Readable) : ∃ t, headSymbol n = pure t := by
  cases n with
  | cons f r t => exact symbolText_ok h.1
  | atom b hint t => exact ⟨none, rfl⟩

theorem known_add (found : List String) (p : String)
    (hf : ∀ q ∈ found, isKnownInclude q = true) (hp : isKnownInclude p = true) :
    ∀ q ∈ (if found.contains p = true then found else found ++ [p]), isKnownInclude q = true := by
  intro q hq
  split at hq
  · exact hf q hq
  · rcases List.mem_append.mp hq with hq | hq
    · exact hf q hq
    · rw [List.mem_singleton.mp hq]
      exact hp

theorem isKnownInclude_of_includeFor {name p : String} (h : includeFor name = some p) :
    isKnownInclude p = true := by
  obtain ⟨f, hf, rfl⟩ := Option.map_eq_some_iff.mp h
  simp only [isKnownInclude, List.any_eq_true, beq_iff_eq]
  exact ⟨f, List.mem_of_find?_eq_some hf, rfl⟩

section Visit

variable (declared : List String) {add : List String → String → List String}
  (hadd : ∀ found p, (∀ q ∈ found, isKnownInclude q = true) → isKnownInclude p = true →
    ∀ q ∈ add found p, isKnownInclude q = true)
include hadd

theorem visit_ok : ∀ (n : Noted) (found : List String), n.Readable →
    (∀ p ∈ found, isKnownInclude p = true) →
      ∃ found', autoIncludes.visit declared add found n = .ok found' ∧
        ∀ p ∈ found', isKnownInclude p = true
  | .atom b h t, found, hn, hf => by
    obtain ⟨name?, hname⟩ := symbolText_ok hn
    rw [autoIncludes.visit, hname, pure_bind]
    cases name? with
    | none => exact ⟨found, rfl, hf⟩
    | some name =>
      dsimp only
      split
      · exact ⟨_, rfl, hadd found _ hf (by decide)⟩
      · exact ⟨found, rfl, hf⟩
  | .cons f r t, found, hn, hf => by
    obtain ⟨head?, hhead⟩ := headSymbol_ok hn
    have hparts : ∀ found0, (∀ p ∈ found0, isKnownInclude p = true) → ∃ found', (do
        let x ← autoIncludes.visit declared add found0 f
        autoIncludes.visit declared add x r) = .ok found' ∧
          ∀ p ∈ found', isKnownInclude p = true := by
      intro found0 hf0
      obtain ⟨found1, h1, hk1⟩ := visit_ok f found0 hn.1 hf0
      obtain ⟨found2, h2, hk2⟩ := visit_ok r found1 hn.2 hk1
      exact ⟨found2, by rw [h1]; exact h2, hk2⟩
    rw [autoIncludes.visit, hhead]
    refine hparts _ ?_
    split
    · split
      · exact hf
      · split
        · rename_i p hp
          split
          · exact hf
          · exact hadd found p hf (isKnownInclude_of_includeFor hp)
        · exact hf
    · exact hf

theorem foldlM_visit_ok : ∀ (ts : List Noted) (found : List String), (∀ t ∈ ts, t.Readable) →
    (∀ p ∈ found, isKnownInclude p = true) →
      ∃ found', ts.foldlM (autoIncludes.visit declared add) found = .ok found' ∧
        ∀ p ∈ found', isKnownInclude p = true
  | [], found, _, hf => ⟨found, rfl, hf⟩
  | t :: ts, found, hts, hf => by
    obtain ⟨found1, h1, hk1⟩ := visit_ok declared hadd t found (hts t List.mem_cons_self) hf
    obtain ⟨found2, h2, hk2⟩ := foldlM_visit_ok ts found1
      (fun u hu => hts u (List.mem_cons_of_mem _ hu)) hk1
    refine ⟨found2, ?_, hk2⟩
    rw [List.foldlM_cons, h1]
    exact h2

end Visit

theorem autoIncludes_ok {trees : List Noted} (h : ∀ t ∈ trees, t.Readable)
    (declared : List String) :
    ∃ found, autoIncludes trees declared = .ok found ∧ ∀ p ∈ found, isKnownInclude p = true := by
  unfold autoIncludes
  exact foldlM_visit_ok declared known_add trees [] h (fun _ hp => absurd hp List.not_mem_nil)

end Build

end PuzzleKit
