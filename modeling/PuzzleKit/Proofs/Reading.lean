import PuzzleKit.Proofs.Tokens

/-!
# Reading the tokens of a tree

The reader keeps a stack of open lists and adds each completed part to the innermost one.
With no remarks and no ticks about, adding a part is a plain push (`add_eq_push`), and the
reader's work on the tokens of one part is local: `Reads ks t` says that tokens of kinds `ks`,
fed to a reader that can take one more part, push a part that is the same program as `t` and
leave everything else to the tokens after them. `ReadsTail` says the same of the rest of a
list after its first part, closing parenthesis included: it closes the innermost list, which
becomes one part of the list around it.

The lemmas below build `Reads` for atoms from how their text reads (`AtomText`) and for pairs
from their two halves, so that a tree's tokens are read back by induction on the tree.
-/

namespace PuzzleKit

theorem Tree.same_refl (t : Tree) : t.same t = true := by
  induction t with
  | atom b h => simp [Tree.same]
  | cons f r ihf ihr => simp [Tree.same, ihf, ihr]

theorem Noted.tree_withTag (t : Tag) (n : Noted) : (n.withTag t).tree = n.tree := by
  cases n <;> rfl

theorem Noted.tree_attach (rm : Remarks) (n : Noted) (ns : List String) :
    (n.attach rm ns).1.tree = n.tree := by
  unfold Noted.attach
  split
  · exact Noted.tree_withTag _ n
  · rfl

theorem Noted.tree_ofList (items : List Noted) (tail : Noted) :
    (Noted.ofList items tail).tree = Tree.ofList (items.map Noted.tree) tail.tree := by
  induction items with
  | nil => rfl
  | cons x xs ih =>
    simp only [Noted.ofList, List.foldr_cons, List.map_cons, Tree.ofList] at ih ⊢
    rw [Noted.tree, ih]

namespace SExpr

namespace Reader

/-- A reader with no remarks waiting and no tick among its open lists. -/
def Plain (r : Reader) : Prop :=
  r.pending = [] ∧ ∀ f ∈ r.inner, f.tick = false ∧ f.notes = []

/-- The innermost list can take one more part: it has no dot, or no part after its dot yet. -/
def Open (r : Reader) : Prop :=
  ∀ d, r.current.dot = some d → r.current.items.length ≤ d

/-- The reader after `el` is added to its innermost list, with the shared remarks `rm`. -/
def push (r : Reader) (el : Noted) (rm : Remarks) : Reader :=
  ({ r with pending := [], remarks := rm } : Reader).setCurrent
    { r.current with items := el :: r.current.items }

theorem closeTicks_of_untied {fs : List Frame} (h : ∀ f ∈ fs, f.tick = false) (top : Frame) :
    closeTicks fs top = (fs, top) := by
  match fs, h with
  | [], _ => simp [closeTicks]
  | [f], h =>
    have hf : f.tick = false := h f (by simp)
    rw [closeTicks]
    split <;> simp_all
  | f :: g :: gs, h =>
    have hf : f.tick = false := h f (by simp)
    rw [closeTicks]
    split <;> simp_all

theorem push_with_inner {r x : Reader} (ht : x.top = r.top) (gs : List Frame) (el : Noted)
    (rm : Remarks) :
    ({ x with inner := gs } : Reader).push el rm = ({ r with inner := gs } : Reader).push el rm := by
  unfold push setCurrent current
  rw [ht]

theorem open_with_inner {r x : Reader} (ht : x.top = r.top) (gs : List Frame)
    (h : ({ r with inner := gs } : Reader).Open) : ({ x with inner := gs } : Reader).Open := by
  unfold Open current at *
  rwa [ht]

theorem push_of_inner (r : Reader) {g : Frame} {gs : List Frame} (h : r.inner = g :: gs)
    (el : Noted) (rm : Remarks) :
    (r.push el rm).inner = { g with items := el :: g.items } :: gs ∧ (r.push el rm).top = r.top := by
  unfold push setCurrent current
  rw [h]
  exact ⟨rfl, rfl⟩

theorem inner_push (r : Reader) (el : Noted) (rm : Remarks) :
    (r.push el rm).inner = match r.inner with
      | f :: fs => { f with items := el :: f.items } :: fs
      | [] => [] := by
  unfold push setCurrent current
  cases r.inner <;> rfl

theorem plain_push {r : Reader} (hr : Plain r) (el : Noted) (rm : Remarks) :
    Plain (r.push el rm) := by
  obtain ⟨-, hf⟩ := hr
  refine ⟨by unfold push setCurrent; split <;> rfl, ?_⟩
  rw [inner_push]
  split
  · next f fs heq =>
    rw [heq] at hf
    intro g hg
    rcases List.mem_cons.mp hg with rfl | hg
    · exact hf f (by simp)
    · exact hf g (by simp [hg])
  · simp

/-- With no remarks waiting and no ticks open, adding a part pushes it, its remarks settled. -/
theorem add_eq_push {r : Reader} (hr : Plain r) (ho : Open r) (el : Noted) (p : Pos) :
    ∃ el' rm, el'.tree = el.tree ∧ r.add el p = .ok (r.push el' rm) := by
  obtain ⟨hp, hf⟩ := hr
  refine ⟨(el.attach r.remarks r.pending).1, (el.attach r.remarks r.pending).2,
    Noted.tree_attach _ _ _, ?_⟩
  rcases r with ⟨top, inner, pending, remarks⟩
  dsimp only at hp hf ho ⊢
  subst hp
  cases inner with
  | nil =>
    have ht : ∀ fr : Frame, closeTicks [] fr = ([], fr) := fun fr => closeTicks_of_untied (by simp) fr
    simp only [Open, current] at ho
    simp only [add, attach, current, setCurrent, push, ht]
    split
    · next d hd => rw [if_neg (by have := ho d hd; omega)]
    · rfl
  | cons g gs =>
    have ht : ∀ x : Noted, closeTicks ({ g with items := x :: g.items } :: gs) top =
        ({ g with items := x :: g.items } :: gs, top) := by
      intro x
      apply closeTicks_of_untied
      intro f hf'
      rcases List.mem_cons.mp hf' with rfl | hf'
      · exact (hf g (by simp)).1
      · exact (hf f (by simp [hf'])).1
    simp only [Open, current] at ho
    simp only [add, attach, current, setCurrent, push, ht]
    split
    · next d hd => rw [if_neg (by have := ho d hd; omega)]
    · rfl

end Reader

open Reader

/-- Tokens of kinds `ks`, fed to a reader that can take one more part, push a part that is the
same program as `t`, whatever tokens follow. -/
def Reads (ks : List (Group × String)) (t : Tree) : Prop :=
  ∀ (r : Reader) (ts more : List Token), r.Plain → r.Open → ts.map Token.kind = ks →
    ∃ el rm, el.tree.same t = true ∧ r.feedAll (ts ++ more) = (r.push el rm).feedAll more

/-- Tokens of kinds `ks`, fed to a reader whose innermost list `g` holds a first part and no
dot, end that list with the tail `t` and push it, as one part, to the list around it. -/
def ReadsTail (ks : List (Group × String)) (t : Tree) : Prop :=
  ∀ (r : Reader) (g : Frame) (gs : List Frame) (ts more : List Token), r.Plain →
    r.inner = g :: gs → g.dot = none → g.items ≠ [] → ({ r with inner := gs } : Reader).Open →
    ts.map Token.kind = ks → ∃ el rm u, u.same t = true ∧
      el.tree = Tree.ofList (g.items.reverse.map Noted.tree) u ∧
      r.feedAll (ts ++ more) = (({ r with inner := gs } : Reader).push el rm).feedAll more

theorem feedAll_append (r : Reader) (ts more : List Token) :
    r.feedAll (ts ++ more) = (r.feedAll ts).bind fun r' => r'.feedAll more := by
  induction ts generalizing r with
  | nil => rfl
  | cons t ts ih =>
    simp only [List.cons_append, Reader.feedAll]
    cases r.feed t with
    | error e => rfl
    | ok r' => exact ih r'

theorem feedAll_solid (r : Reader) (ts : List Token) : r.feedAll (solid ts) = r.feedAll ts := by
  induction ts generalizing r with
  | nil => rfl
  | cons t ts ih =>
    by_cases hb : t.group = .blank
    · rw [solid_cons_blank hb, ih, Reader.feedAll]
      simp only [Reader.feed, hb]
      rfl
    · rw [solid_cons_of_ne hb, Reader.feedAll, Reader.feedAll]
      cases r.feed t with
      | error e => rfl
      | ok r' => exact ih r'

theorem token_of_kind {t : Token} {g : Group} {x : String} (h : t.kind = (g, x)) :
    t.group = g ∧ t.text = x := by
  simpa [Token.kind] using h

theorem reads_word {w : String} {b : List UInt8} (hdot : w ≠ ".")
    (hw : ∀ p, ∃ h, atomOf w p = .ok (.atom b h (.own []))) (h' : Hint) :
    Reads [(.atom, w)] (.atom b h') := by
  intro r ts more hr ho hk
  obtain ⟨t, rfl, ht⟩ := List.map_eq_singleton_iff.mp hk
  obtain ⟨hg, hx⟩ := token_of_kind ht
  obtain ⟨h, hat⟩ := hw t.pos
  obtain ⟨el, rm, htree, hadd⟩ := add_eq_push hr ho (.atom b h (.own [])) t.pos
  refine ⟨el, rm, by simp [htree, Noted.tree, Tree.same], ?_⟩
  rw [List.singleton_append, Reader.feedAll]
  simp only [Reader.feed, hg, hx, hdot, if_false, hat, Except.bind, hadd]

theorem reads_quote (s : String) (h' : Hint) :
    Reads [(.string, Text.quote s)] (.atom s.toUTF8.toList h') := by
  intro r ts more hr ho hk
  obtain ⟨t, rfl, ht⟩ := List.map_eq_singleton_iff.mp hk
  obtain ⟨hg, hx⟩ := token_of_kind ht
  have hbody : (t.text.toList.drop 1).dropLast = s.toList.flatMap escaped := by
    rw [hx, toList_quote]
    simp
  obtain ⟨el, rm, htree, hadd⟩ :=
    add_eq_push hr ho (.atom (String.ofList s.toList).toUTF8.toList .string (.own [])) t.pos
  refine ⟨el, rm, by simp [htree, Noted.tree, Tree.same], ?_⟩
  rw [List.singleton_append, Reader.feedAll]
  simp only [Reader.feed, hg, hbody, unescape_flatMap_escaped, Except.bind, hadd]

/-! ## Lists -/

theorem feed_opening {t : Token} (hg : t.group = .opening) (r : Reader) :
    r.feed t = .ok { r with inner := ⟨[], none, t.pos, r.pending, false⟩ :: r.inner, pending := [] } := by
  simp [Reader.feed, hg]

theorem feed_closing_undotted {t : Token} (hg : t.group = .closing) (r : Reader) {g : Frame}
    {gs : List Frame} (hi : r.inner = g :: gs) (htick : g.tick = false) (hdot : g.dot = none) :
    r.feed t = ({ r with inner := gs, pending := g.notes ++ r.pending } : Reader).add
      (Noted.ofList g.items.reverse) t.pos := by
  simp only [Reader.feed, hg, hi, htick, hdot, Bool.false_eq_true, if_false]
  rfl

theorem feed_closing_dotted {t : Token} (hg : t.group = .closing) (r : Reader) {g : Frame}
    {gs : List Frame} (hi : r.inner = g :: gs) (htick : g.tick = false) {x : Noted}
    {before : List Noted} (hitems : g.items = x :: before) (hdot : g.dot = some before.length) :
    r.feed t = ({ r with inner := gs, pending := g.notes ++ r.pending } : Reader).add
      (Noted.ofList before.reverse x) t.pos := by
  simp only [Reader.feed, hg, hi, htick, hdot, hitems, Bool.false_eq_true, if_false,
    List.length_reverse, List.length_cons, Nat.succ_ne_self]
  rfl

theorem closed_eq {r : Reader} {g : Frame} {gs : List Frame} (hr : r.Plain)
    (hi : r.inner = g :: gs) :
    ({ r with inner := gs, pending := g.notes ++ r.pending } : Reader) = { r with inner := gs } ∧
      ({ r with inner := gs } : Reader).Plain := by
  obtain ⟨hp, hf⟩ := hr
  have hn : g.notes = [] := (hf g (by simp [hi])).2
  refine ⟨by rw [hn, hp]; cases r; simp_all, hp, ?_⟩
  intro f hf'
  exact hf f (by simp [hi, hf'])

theorem reads_empty (h' : Hint) : Reads [(.opening, "("), (.closing, ")")] (.atom [] h') := by
  intro r ts more hr ho hk
  obtain ⟨t₁, l, rfl, ht₁, hl⟩ := List.map_eq_cons_iff.mp hk
  obtain ⟨t₂, rfl, ht₂⟩ := List.map_eq_singleton_iff.mp hl
  let r₁ : Reader := { r with inner := ⟨[], none, t₁.pos, r.pending, false⟩ :: r.inner, pending := [] }
  have hback : ({ r₁ with inner := r.inner } : Reader) = r := by
    cases r
    simp_all [r₁, Plain]
  have hr₁ : r₁.Plain := by
    refine ⟨rfl, fun f hf => ?_⟩
    rcases List.mem_cons.mp hf with rfl | hf
    · exact ⟨rfl, hr.1⟩
    · exact hr.2 f hf
  obtain ⟨hc, -⟩ := closed_eq hr₁ rfl
  obtain ⟨el, rm, htree, hadd⟩ := add_eq_push hr ho (Noted.ofList []) t₂.pos
  refine ⟨el, rm, by simp [htree, Noted.ofList, Noted.nil, Noted.tree, Tree.same], ?_⟩
  have h₂ : r₁.feed t₂ = .ok (r.push el rm) := by
    have hclose := feed_closing_undotted (token_of_kind ht₂).1 r₁ rfl rfl rfl
    rw [hclose, hc, hback]
    exact hadd
  have h₁ : r.feed t₁ = .ok r₁ := feed_opening (token_of_kind ht₁).1 r
  calc r.feedAll ([t₁, t₂] ++ more)
      = r₁.feedAll (t₂ :: more) := by rw [List.cons_append, Reader.feedAll, h₁]; rfl
    _ = (r.push el rm).feedAll more := by rw [Reader.feedAll, h₂]; rfl

theorem ofList_reverse_cons (x : Tree) (xs : List Tree) (u : Tree) :
    Tree.ofList (x :: xs).reverse u = Tree.ofList xs.reverse (.cons x u) := by
  simp [Tree.ofList, List.foldr_append]

/-- A list's tokens: its opening parenthesis, its first part, and the rest with the closing
parenthesis. -/
theorem reads_cons {ks₁ ks₂ : List (Group × String)} {f rest : Tree} (hf : Reads ks₁ f)
    (hrest : ReadsTail ks₂ rest) : Reads ((.opening, "(") :: (ks₁ ++ ks₂)) (.cons f rest) := by
  intro r ts more hr ho hk
  obtain ⟨t₀, l, rfl, ht₀, hl⟩ := List.map_eq_cons_iff.mp hk
  obtain ⟨ts₁, ts₂, rfl, hk₁, hk₂⟩ := List.map_eq_append_iff.mp hl
  let r₁ : Reader := { r with inner := ⟨[], none, t₀.pos, r.pending, false⟩ :: r.inner, pending := [] }
  have hr₁ : r₁.Plain := by
    refine ⟨rfl, fun g hg => ?_⟩
    rcases List.mem_cons.mp hg with rfl | hg
    · exact ⟨rfl, hr.1⟩
    · exact hr.2 g hg
  have ho₁ : r₁.Open := by
    intro d hd
    simp [r₁, current] at hd
  obtain ⟨el₁, rm₁, hs₁, hfeed₁⟩ := hf r₁ ts₁ (ts₂ ++ more) hr₁ ho₁ hk₁
  obtain ⟨hin₂, htop₂⟩ := push_of_inner r₁ rfl el₁ rm₁
  have ho₂ : ({ r₁.push el₁ rm₁ with inner := r.inner } : Reader).Open :=
    open_with_inner htop₂ r.inner ho
  obtain ⟨el, rm, u, hu, htree, hfeed₂⟩ :=
    hrest (r₁.push el₁ rm₁) _ r.inner ts₂ more (plain_push hr₁ el₁ rm₁) hin₂ rfl (by simp) ho₂ hk₂
  refine ⟨el, rm, ?_, ?_⟩
  · rw [htree]
    simp [Tree.ofList, Tree.same, hs₁, hu]
  · have h₀ : r.feed t₀ = .ok r₁ := feed_opening (token_of_kind ht₀).1 r
    calc r.feedAll (t₀ :: (ts₁ ++ ts₂) ++ more)
        = r₁.feedAll (ts₁ ++ (ts₂ ++ more)) := by
          rw [List.cons_append, Reader.feedAll, h₀, List.append_assoc]; rfl
      _ = (r₁.push el₁ rm₁).feedAll (ts₂ ++ more) := hfeed₁
      _ = ({ r₁.push el₁ rm₁ with inner := r.inner }.push el rm).feedAll more := hfeed₂
      _ = (r.push el rm).feedAll more := by rw [push_with_inner htop₂]; rfl

theorem readsTail_nil (h' : Hint) : ReadsTail [(.closing, ")")] (.atom [] h') := by
  intro r g gs ts more hr hi hdot _ ho hk
  obtain ⟨t, rfl, ht⟩ := List.map_eq_singleton_iff.mp hk
  have htick : g.tick = false := (hr.2 g (by simp [hi])).1
  obtain ⟨hc, hrc⟩ := closed_eq hr hi
  obtain ⟨el, rm, htree, hadd⟩ := add_eq_push hrc ho (Noted.ofList g.items.reverse) t.pos
  refine ⟨el, rm, .atom [] .bytes, by simp [Tree.same], ?_, ?_⟩
  · rw [htree, Noted.tree_ofList, List.map_reverse]
    rfl
  · rw [List.singleton_append, Reader.feedAll,
      feed_closing_undotted (token_of_kind ht).1 r hi htick hdot, hc, hadd]
    rfl

theorem readsTail_dot {ks : List (Group × String)} {b : List UInt8} {h' : Hint}
    (ha : Reads ks (.atom b h')) :
    ReadsTail ((.atom, ".") :: (ks ++ [(.closing, ")")])) (.atom b h') := by
  intro r g gs ts more hr hi hdot hne ho hk
  obtain ⟨t₀, l, rfl, ht₀, hl⟩ := List.map_eq_cons_iff.mp hk
  obtain ⟨ts₁, l₂, rfl, hk₁, hk₂⟩ := List.map_eq_append_iff.mp hl
  obtain ⟨t₂, rfl, ht₂⟩ := List.map_eq_singleton_iff.mp hk₂
  have htick : g.tick = false := (hr.2 g (by simp [hi])).1
  let g₁ : Frame := { g with dot := some g.items.length }
  let r₁ : Reader := { r with inner := g₁ :: gs }
  have h₀ : r.feed t₀ = .ok r₁ := by
    obtain ⟨hg, hx⟩ := token_of_kind ht₀
    have hnil : g.items.isEmpty = false := by simpa using hne
    simp [Reader.feed, hg, hx, current, hi, htick, hnil, hdot, setCurrent, r₁, g₁]
  have hr₁ : r₁.Plain := by
    refine ⟨hr.1, fun f hf => ?_⟩
    rcases List.mem_cons.mp hf with rfl | hf
    · exact hr.2 g (by simp [hi])
    · exact hr.2 f (by simp [hi, hf])
  have ho₁ : r₁.Open := by
    intro d hd
    simp only [current, r₁, g₁, Option.some.injEq] at hd
    simp [current, r₁, g₁, hd]
  obtain ⟨el₁, rm₁, hs₁, hfeed₁⟩ := ha r₁ ts₁ ([t₂] ++ more) hr₁ ho₁ hk₁
  obtain ⟨hin₂, htop₂⟩ := push_of_inner r₁ rfl el₁ rm₁
  obtain ⟨hc, hrc⟩ := closed_eq (plain_push hr₁ el₁ rm₁) hin₂
  have ho₂ : ({ r₁.push el₁ rm₁ with inner := gs } : Reader).Open := open_with_inner htop₂ gs ho
  obtain ⟨el, rm, htree, hadd⟩ := add_eq_push hrc ho₂ (Noted.ofList g.items.reverse el₁) t₂.pos
  refine ⟨el, rm, el₁.tree, hs₁, by rw [htree, Noted.tree_ofList, List.map_reverse], ?_⟩
  have h₂ : (r₁.push el₁ rm₁).feed t₂ = .ok ({ r₁.push el₁ rm₁ with inner := gs }.push el rm) := by
    rw [feed_closing_dotted (token_of_kind ht₂).1 _ hin₂ htick rfl rfl, hc, hadd]
  calc r.feedAll (t₀ :: (ts₁ ++ [t₂]) ++ more)
      = r₁.feedAll (ts₁ ++ ([t₂] ++ more)) := by
        rw [List.cons_append, Reader.feedAll, h₀, List.append_assoc]; rfl
    _ = (r₁.push el₁ rm₁).feedAll ([t₂] ++ more) := hfeed₁
    _ = ({ r₁.push el₁ rm₁ with inner := gs }.push el rm).feedAll more := by
        rw [List.singleton_append, Reader.feedAll, h₂]; rfl
    _ = ({ r with inner := gs }.push el rm).feedAll more := by rw [push_with_inner htop₂]
  rfl

theorem readsTail_cons {ks₁ ks₂ : List (Group × String)} {f rest : Tree} (hf : Reads ks₁ f)
    (hrest : ReadsTail ks₂ rest) : ReadsTail (ks₁ ++ ks₂) (.cons f rest) := by
  intro r g gs ts more hr hi hdot hne ho hk
  obtain ⟨ts₁, ts₂, rfl, hk₁, hk₂⟩ := List.map_eq_append_iff.mp hk
  have ho' : r.Open := by
    intro d hd
    simp [current, hi, hdot] at hd
  obtain ⟨el₁, rm₁, hs₁, hfeed₁⟩ := hf r ts₁ (ts₂ ++ more) hr ho' hk₁
  obtain ⟨hin, htop⟩ := push_of_inner r hi el₁ rm₁
  have ho₁ : ({ r.push el₁ rm₁ with inner := gs } : Reader).Open := open_with_inner htop gs ho
  obtain ⟨el, rm, u, hu, htree, hfeed₂⟩ :=
    hrest (r.push el₁ rm₁) _ gs ts₂ more (plain_push hr el₁ rm₁) hin hdot (by simp) ho₁ hk₂
  refine ⟨el, rm, .cons el₁.tree u, by simp [Tree.same, hs₁, hu], ?_, ?_⟩
  · rw [htree, List.map_reverse, List.map_cons, ofList_reverse_cons, List.map_reverse]
  · calc r.feedAll (ts₁ ++ ts₂ ++ more)
        = (r.push el₁ rm₁).feedAll (ts₂ ++ more) := by rw [List.append_assoc]; exact hfeed₁
      _ = ({ r.push el₁ rm₁ with inner := gs }.push el rm).feedAll more := hfeed₂
      _ = ({ r with inner := gs }.push el rm).feedAll more := by rw [push_with_inner htop]
    rfl

end SExpr

end PuzzleKit
