import PuzzleKit.Proofs.Reading

/-!
# What the reader does to trees

Besides the trees it builds, the reader keeps remarks and where each list opened. A `Shape`
keeps only the trees: each open list as its parts so far, its dot, and whether it is a tick.
`Shape.feed` reads a token on shapes; the reader's shapes follow it token by token and fail with
it (`Reader.shape_feedAll`). Blanks and remarks leave a shape as it is
(`Shape.feedAll_significant`), so what a text reads as depends on its other tokens only.
-/

namespace PuzzleKit.SExpr

/-- A list being read, as trees: its parts so far (last first), how many stand before its dot,
and whether it is a tick waiting for its part. -/
structure Slot where
  items : List Tree
  dot : Option Nat
  tick : Bool

/-- The reader as trees: its outermost level and its open lists, innermost first. -/
structure Shape where
  top : Slot
  inner : List Slot

/-- The trees of a list being read. -/
def Frame.slot (f : Frame) : Slot := ⟨f.items.map Noted.tree, f.dot, f.tick⟩

/-- The trees of the reader. -/
def Reader.shape (r : Reader) : Shape := ⟨r.top.slot, r.inner.map Frame.slot⟩

/-- The tree `(q . x)` that a tick before `x` reads as. -/
def quoteTree (x : Tree) : Tree := .cons (.atom "q".toUTF8.toList .symbol) x

/-- Whether a token is read for what it says: it is neither blank nor a remark. -/
def Token.significant (t : Token) : Bool := t.group != .blank && t.group != .remark

/-- The tree of an atom token other than the dot, or of a string token, when it reads. -/
def atomTree? (t : Token) : Option Tree :=
  match t.group with
  | .atom => if t.text = "." then none else (atomOf t.text t.pos).toOption.map Noted.tree
  | .string => (unescape t.pos ((t.text.toList.drop 1).dropLast)).toOption.map fun cs =>
      .atom (String.ofList cs).toUTF8.toList .string
  | _ => none

namespace Shape

/-- The innermost list being read. -/
def current (s : Shape) : Slot :=
  match s.inner with
  | f :: _ => f
  | [] => s.top

/-- Replaces the innermost list being read. -/
def setCurrent (s : Shape) (f : Slot) : Shape :=
  match s.inner with
  | _ :: fs => { s with inner := f :: fs }
  | [] => { s with top := f }

/-- Closes every tick whose part is complete, innermost first. -/
def closeTicks : List Slot → Slot → List Slot × Slot
  | [], top => ([], top)
  | [f], top =>
    match f.tick, f.items with
    | true, x :: _ => ([], { top with items := quoteTree x :: top.items })
    | _, _ => ([f], top)
  | f :: g :: gs, top =>
    match f.tick, f.items with
    | true, x :: _ => closeTicks ({ g with items := quoteTree x :: g.items } :: gs) top
    | _, _ => (f :: g :: gs, top)
termination_by fs => fs.length

/-- Puts a completed part into the innermost list, and closes the ticks it completes. -/
def put (s : Shape) (x : Tree) : Shape :=
  let s' := s.setCurrent { s.current with items := x :: s.current.items }
  let (o, t) := closeTicks s'.inner s'.top
  ⟨t, o⟩

/-- Whether the innermost list is dotted and has its part after the dot already. -/
def full (s : Shape) : Bool :=
  match s.current.dot with
  | some d => d < s.current.items.length
  | none => false

/-- Adds a completed part, unless the innermost list is full. -/
def add (s : Shape) (x : Tree) : Option Shape := if s.full then none else some (s.put x)

/-- The part a closing parenthesis makes of the innermost list, unless its dot has nothing
after it. -/
def closed (f : Slot) : Option Tree :=
  match f.dot with
  | some d =>
    if f.items.length = d then none
    else
      match f.items with
      | tail :: before => some (Tree.ofList before.reverse tail)
      | [] => some Tree.nil
  | none => some (Tree.ofList f.items.reverse Tree.nil)

/-- Reads one token. -/
def feed (s : Shape) (t : Token) : Option Shape :=
  match t.group with
  | .blank | .remark => some s
  | .opening => some { s with inner := ⟨[], none, false⟩ :: s.inner }
  | .tick => some { s with inner := ⟨[], none, true⟩ :: s.inner }
  | .closing =>
    match s.inner with
    | [] => none
    | f :: fs => if f.tick then none else (closed f).bind fun x => Shape.add ⟨s.top, fs⟩ x
  | .string => (atomTree? t).bind s.add
  | .atom =>
    if t.text = "." then
      if s.inner.isEmpty || s.current.tick || s.current.items.isEmpty || s.current.dot.isSome then
        none
      else some (s.setCurrent { s.current with dot := some s.current.items.length })
    else (atomTree? t).bind s.add

/-- Reads tokens in order; the first fault stops. -/
def feedAll (s : Shape) : List Token → Option Shape
  | [] => some s
  | t :: ts => (s.feed t).bind fun s' => s'.feedAll ts

end Shape

namespace Reader

theorem tree_quoted (x : Noted) (notes : List String) : (quoted x notes).tree = quoteTree x.tree :=
  rfl

theorem slot_current (r : Reader) : r.current.slot = r.shape.current := by
  unfold current Shape.current shape
  cases r.inner <;> rfl

theorem shape_setCurrent (r : Reader) (f : Frame) :
    (r.setCurrent f).shape = r.shape.setCurrent f.slot := by
  unfold setCurrent Shape.setCurrent shape
  cases r.inner <;> rfl

theorem shape_closeTicks : ∀ (fs : List Frame) (top : Frame),
    ((closeTicks fs top).1.map Frame.slot, (closeTicks fs top).2.slot) =
      Shape.closeTicks (fs.map Frame.slot) top.slot
  | [], top => by simp [closeTicks, Shape.closeTicks]
  | [⟨items, dot, pos, notes, tick⟩], top => by
    cases tick <;> cases items <;>
      simp [closeTicks, Shape.closeTicks, Frame.slot, tree_quoted]
  | ⟨items, dot, pos, notes, tick⟩ :: g :: gs, top => by
    cases tick
    · simp [closeTicks, Shape.closeTicks, Frame.slot]
    · cases items with
      | nil => simp [closeTicks, Shape.closeTicks, Frame.slot]
      | cons x xs =>
        have ih := shape_closeTicks ({ g with items := quoted x notes :: g.items } :: gs) top
        simp only [List.map_cons, Frame.slot] at ih ⊢
        rw [closeTicks, Shape.closeTicks]
        simpa [Frame.slot, tree_quoted] using ih
termination_by fs => fs.length

theorem attach_shape (r : Reader) (el : Noted) :
    (r.attach el).1.shape = r.shape ∧ (r.attach el).1.current = r.current ∧
      (r.attach el).1.inner = r.inner ∧ (r.attach el).1.top = r.top ∧
      (r.attach el).2.tree = el.tree :=
  ⟨rfl, rfl, rfl, rfl, Noted.tree_attach _ _ _⟩

theorem shape_settle (r : Reader) :
    ({ r with inner := (closeTicks r.inner r.top).1, top := (closeTicks r.inner r.top).2 } :
      Reader).shape = ⟨(Shape.closeTicks r.shape.inner r.shape.top).2,
        (Shape.closeTicks r.shape.inner r.shape.top).1⟩ := by
  have h := shape_closeTicks r.inner r.top
  simp only [shape, ← h]

theorem slot_withItem (f : Frame) (el : Noted) :
    ({ f with items := el :: f.items } : Frame).slot = { f.slot with items := el.tree :: f.slot.items } :=
  rfl

theorem shape_put (r : Reader) (el : Noted) {r₂ : Reader}
    (h₂ : r₂ = r.setCurrent { r.current with items := el :: r.current.items }) :
    ({ r₂ with inner := (closeTicks r₂.inner r₂.top).1, top := (closeTicks r₂.inner r₂.top).2 } :
        Reader).shape = r.shape.put el.tree := by
  subst h₂
  simp only [shape_settle, shape_setCurrent, slot_withItem, slot_current, Shape.put]

theorem shape_add (r : Reader) (el : Noted) (p : Pos) :
    (r.add el p).toOption.map shape = r.shape.add el.tree := by
  obtain ⟨hs, hc, hi, ht, hel⟩ := attach_shape r el
  unfold add
  generalize r.attach el = a at hs hc hi ht hel
  obtain ⟨r₁, el₁⟩ := a
  dsimp only at hs hc hi ht hel ⊢
  rw [← hs, ← hel]
  have hfull : r₁.shape.full = match r₁.current.dot with
      | some d => decide (d < r₁.current.items.length)
      | none => false := by
    simp only [Shape.full, ← slot_current, Frame.slot, List.length_map]
  unfold Shape.add
  rw [hfull]
  cases hd : r₁.current.dot with
  | some d =>
    by_cases hlt : d < r₁.current.items.length
    · simp [hlt, Except.toOption]
    · simp only [gt_iff_lt, hlt, if_false, decide_false, Bool.false_eq_true, Except.toOption,
        Option.map_some]
      exact congrArg some (shape_put r₁ el₁ (by simp only [hd]))
  | none =>
    simp only [Except.toOption, Option.map_some]
    exact congrArg some (shape_put r₁ el₁ (by simp only [hd]))

theorem closed_slot (p : Pos) (f : Frame) :
    (match f.dot with
      | some d =>
        if f.items.reverse.length = d then (.error (.missingAfterDot p) : Except ReadError Noted)
        else
          match f.items with
          | tail :: before => .ok (Noted.ofList before.reverse tail)
          | [] => .ok Noted.nil
      | none => .ok (Noted.ofList f.items.reverse)).toOption.map Noted.tree = Shape.closed f.slot := by
  obtain ⟨items, dot, pos, notes, tick⟩ := f
  cases dot with
  | none => simp [Shape.closed, Frame.slot, Except.toOption, Noted.tree_ofList, List.map_reverse]; rfl
  | some d =>
    simp only [Shape.closed, Frame.slot, List.length_reverse, List.length_map]
    by_cases hd : items.length = d
    · simp [hd, Except.toOption]
    · rw [if_neg hd, if_neg hd]
      cases items with
      | nil => rfl
      | cons x xs => simp [Except.toOption, Noted.tree_ofList, List.map_reverse]

theorem shape_bind {α β : Type} (x : Except ReadError α) (g : α → Except ReadError Reader)
    (v : α → β) (G : β → Option Shape) (hg : ∀ a, (g a).toOption.map shape = G (v a)) :
    (x.bind g).toOption.map shape = (x.toOption.map v).bind G := by
  cases x with
  | error e => rfl
  | ok a => exact hg a

theorem shape_feed (r : Reader) (t : Token) : (r.feed t).toOption.map shape = r.shape.feed t := by
  unfold feed Shape.feed
  cases hg : t.group with
  | blank => rfl
  | remark => rfl
  | opening => rfl
  | tick => rfl
  | closing =>
    simp only
    cases hi : r.inner with
    | nil => simp [shape, hi, Except.toOption]
    | cons f fs =>
      have hs : r.shape.inner = f.slot :: fs.map Frame.slot := by simp [shape, hi]
      simp only [hs]
      by_cases ht : f.tick
      · simp [ht, Frame.slot, Except.toOption]
      · have ht' : f.slot.tick = false := by simpa [Frame.slot] using ht
        simp only [ht, ht', Bool.false_eq_true, if_false]
        rw [← closed_slot t.pos f]
        exact shape_bind _ _ _ _ fun el => shape_add _ el t.pos
  | string =>
    simp only [atomTree?, hg]
    exact shape_bind _ _ (fun cs : List Char => Tree.atom (String.ofList cs).toUTF8.toList .string) _
      fun cs => shape_add _ _ t.pos
  | atom =>
    simp only
    by_cases hdot : t.text = "."
    · -- a dot reads on the innermost list's parts, dot and tick alone
      have hinner : r.shape.inner.isEmpty = r.inner.isEmpty := by simp [shape]
      simp only [hdot, if_true, hinner, ← slot_current, Frame.slot, List.isEmpty_map]
      by_cases h₁ : (r.inner.isEmpty || r.current.tick) = true
      · simp [h₁, Except.toOption]
      · by_cases h₂ : (r.current.items.isEmpty || r.current.dot.isSome) = true
        · simp [h₁, h₂, Except.toOption]
        · simp only [h₁, h₂, Bool.false_eq_true, if_false, Bool.or_assoc]
          simp only [Bool.or_false, Bool.false_eq_true, if_false, Except.toOption, Option.map_some,
            shape_setCurrent, List.length_map]
          rfl
    · simp only [hdot, if_false, atomTree?, hg]
      exact shape_bind _ _ Noted.tree _ fun el => shape_add _ el t.pos

theorem shape_feedAll (r : Reader) (ts : List Token) :
    (r.feedAll ts).toOption.map shape = r.shape.feedAll ts := by
  induction ts generalizing r with
  | nil => rfl
  | cons t ts ih =>
    have hfeed := shape_feed r t
    simp only [feedAll, Shape.feedAll]
    cases hr : r.feed t with
    | error e =>
      rw [hr] at hfeed
      rw [← hfeed]
      rfl
    | ok r' =>
      rw [hr] at hfeed
      rw [← hfeed]
      exact ih r'

theorem feedAll_of_shape {r : Reader} {ts : List Token} {sh : Shape}
    (h : r.shape.feedAll ts = some sh) : ∃ r', r.feedAll ts = .ok r' ∧ r'.shape = sh := by
  rw [← shape_feedAll] at h
  cases hr : r.feedAll ts with
  | error e => rw [hr] at h; cases h
  | ok r' =>
    rw [hr] at h
    exact ⟨r', rfl, Option.some.inj h⟩

end Reader

namespace Shape

/-- The shape of a reader that has read nothing. -/
def start : Shape := ⟨⟨[], none, false⟩, []⟩

/-- Blanks and remarks leave the trees as they are. -/
theorem feedAll_significant (s : Shape) (ts : List Token) :
    s.feedAll ts = s.feedAll (ts.filter Token.significant) := by
  induction ts generalizing s with
  | nil => rfl
  | cons t ts ih =>
    by_cases ht : t.significant
    · rw [List.filter_cons_of_pos ht, feedAll, feedAll]
      cases s.feed t with
      | none => rfl
      | some s' => exact ih s'
    · rw [List.filter_cons_of_neg ht, feedAll, ← ih]
      have hg : t.group = .blank ∨ t.group = .remark := by
        simp only [Token.significant, Bool.and_eq_true, bne_iff_ne, ne_eq, not_and_or,
          not_not] at ht
        exact ht
      rcases hg with hg | hg <;> simp [feed, hg]

end Shape

/-- A text reads, as trees, to the parts at the outermost level of the shape its tokens read to,
when its scan finds no fault and the shape has no list or tick left open. -/
theorem readAll_trees (s : String) (xs : List Tree) :
    (∃ rd, readAll s = .ok rd ∧ rd.items.map Noted.tree = xs) ↔
      (scan s).2 = none ∧ ∃ sh, Shape.start.feedAll (scan s).1 = some sh ∧ sh.inner = [] ∧
        sh.top.tick = false ∧ sh.top.items.reverse = xs := by
  unfold readAll
  generalize scan s = sc
  obtain ⟨toks, fault⟩ := sc
  let start : Reader := ⟨⟨[], none, Pos.start, [], false⟩, [], [], {}⟩
  have hstart : start.shape = Shape.start := rfl
  constructor
  · rintro ⟨rd, hrd, rfl⟩
    cases hr : start.feedAll toks with
    | error e => simp [start, hr, Except.bind] at hrd
    | ok r =>
      simp only [start] at hr
      simp only [hr, Except.bind] at hrd
      cases fault with
      | some e => cases hrd
      | none =>
        dsimp only at hrd
        split at hrd
        · cases hrd
        · split at hrd
          · cases hrd
          · next htick hinner =>
            cases hrd
            have hsh := Reader.shape_feedAll start toks
            rw [hr, hstart] at hsh
            simp only [List.isEmpty_eq_false_iff, ne_eq, Bool.not_eq_true', not_not] at hinner
            refine ⟨rfl, r.shape, hsh.symm, by simp [Reader.shape, hinner], ?_, ?_⟩
            · simpa [Reader.current, hinner, Reader.shape, Frame.slot] using htick
            · simp [Reader.shape, Frame.slot, List.map_reverse]
  · rintro ⟨rfl, sh, hsh, hinner, htick, rfl⟩
    rw [← hstart] at hsh
    obtain ⟨r, hr, rfl⟩ := Reader.feedAll_of_shape hsh
    have hi : r.inner = [] := by simpa [Reader.shape] using hinner
    have ht : r.current.tick = false := by simpa [Reader.current, hi, Reader.shape, Frame.slot] using htick
    refine ⟨⟨r.top.items.reverse, r.remarks, r.pending⟩, ?_, ?_⟩
    · simp only [start] at hr
      simp [hr, Except.bind, ht, hi]
    · simp [Reader.shape, Frame.slot, List.map_reverse]

theorem parse_eq_ok_iff (s : String) (x : Tree) :
    parse s = .ok x ↔ ∃ rd, readAll s = .ok rd ∧ rd.items.map Noted.tree = [x] := by
  unfold parse readOne
  cases readAll s with
  | error e => simp [Except.bind, Except.map]
  | ok rd =>
    simp only [Except.bind]
    constructor
    · intro h
      split at h
      · cases h
      · next el hel =>
        cases h
        exact ⟨rd, rfl, by simp [hel]⟩
      · cases h
    · rintro ⟨rd', hrd, hx⟩
      cases hrd
      obtain ⟨el, hel, rfl⟩ := List.map_eq_singleton_iff.mp hx
      simp [hel, Except.map]

theorem parseMany_eq_ok_iff (s : String) (xs : List Tree) :
    parseMany s = .ok xs ↔ ∃ rd, readAll s = .ok rd ∧ rd.items.map Noted.tree = xs := by
  unfold parseMany
  cases readAll s with
  | error e => simp [Except.map]
  | ok rd => simp [Except.map]

end PuzzleKit.SExpr
