import PuzzleKit.Proofs.ReaderShape

/-!
# The grammar the reader accepts

`Datum ts x` says the significant tokens `ts` are one datum that reads as `x`: an atom or a
string, a tick and a datum, a list of data, or a list of data, a dot and what follows it. What
may follow a dot is one datum and then any number of ticked data, which become parts of the list
before the last one, its tail: a ticked datum closes into the list around it without the check
that refuses a second part after a dot (`After`).

`parse_iff_grammar`: a text reads as a tree exactly when it scans and its significant tokens are
one datum, and a text reads as trees exactly when they are data. Every derivation is read
(`feedAll_datum`); the other way, each significant token read keeps the reader's shape a reading
of the tokens so far (`ReadInto.feed`).
-/

namespace PuzzleKit.SExpr

mutual

/-- One datum: the significant tokens that stand for it and its tree. -/
inductive Datum : List Token → Tree → Prop
  | atom {t : Token} {x : Tree} : atomTree? t = some x → Datum [t] x
  | tick {t : Token} {ts : List Token} {x : Tree} :
      t.group = .tick → Datum ts x → Datum (t :: ts) (quoteTree x)
  | list {o c : Token} {ts : List Token} {xs : List Tree} :
      o.group = .opening → c.group = .closing → Data ts xs →
      Datum (o :: ts ++ [c]) (Tree.ofList xs Tree.nil)
  | dotted {o d c : Token} {ts us : List Token} {xs front : List Tree} {tail : Tree} :
      o.group = .opening → d.group = .atom → d.text = "." → c.group = .closing →
      Data ts xs → xs ≠ [] → After us front tail →
      Datum (o :: ts ++ d :: us ++ [c]) (Tree.ofList (xs ++ front) tail)

/-- Data one after another. -/
inductive Data : List Token → List Tree → Prop
  | nil : Data [] []
  | cons {ts us : List Token} {x : Tree} {xs : List Tree} :
      Datum ts x → Data us xs → Data (ts ++ us) (x :: xs)

/-- What follows the dot of a list: one datum, then ticked data; all but the last are parts of
the list and the last is its tail. -/
inductive After : List Token → List Tree → Tree → Prop
  | one {ts : List Token} {y : Tree} : Datum ts y → After ts [] y
  | tick {us ts : List Token} {front : List Tree} {y z : Tree} {t : Token} :
      After us front y → t.group = .tick → Datum ts z →
      After (us ++ t :: ts) (front ++ [y]) (quoteTree z)

end

namespace Shape

@[simp] theorem current_setCurrent (s : Shape) (f : Slot) : (s.setCurrent f).current = f := by
  unfold setCurrent current
  cases s.inner <;> rfl

@[simp] theorem setCurrent_setCurrent (s : Shape) (f g : Slot) :
    (s.setCurrent f).setCurrent g = s.setCurrent g := by
  unfold setCurrent
  cases s.inner <;> rfl

@[simp] theorem setCurrent_current (s : Shape) : s.setCurrent s.current = s := by
  unfold setCurrent current
  cases h : s.inner <;> cases s <;> simp_all

theorem put_untied {s : Shape} (h : s.current.tick = false) (x : Tree) :
    s.put x = s.setCurrent { s.current with items := x :: s.current.items } := by
  obtain ⟨top, inner⟩ := s
  cases inner with
  | nil => simp [put, setCurrent, current, closeTicks]
  | cons f fs =>
    simp only [current] at h
    cases fs with
    | nil => simp [put, setCurrent, current, closeTicks, h]
    | cons g gs => simp [put, setCurrent, current, closeTicks, h]

theorem put_ticked (top : Slot) (fs : List Slot) (x : Tree) :
    (⟨top, ⟨[], none, true⟩ :: fs⟩ : Shape).put x = (⟨top, fs⟩ : Shape).put (quoteTree x) := by
  cases fs with
  | nil => simp [put, setCurrent, current, closeTicks]
  | cons g gs => simp [put, setCurrent, current, closeTicks]

theorem add_ticked (top : Slot) (fs : List Slot) (x : Tree) :
    (⟨top, ⟨[], none, true⟩ :: fs⟩ : Shape).add x = some ((⟨top, fs⟩ : Shape).put (quoteTree x)) := by
  simp [add, full, current, put_ticked]

/-- Adds a completed part: unless it is a ticked part, only where the innermost list takes one. -/
def deliver (ticked : Bool) (s : Shape) (x : Tree) : Option Shape :=
  if ticked then some (s.put x) else s.add x

end Shape

/-- Whether tokens start with a tick. -/
def startsTicked : List Token → Bool
  | t :: _ => t.group == .tick
  | [] => false

theorem feed_of_atomTree? {t : Token} {x : Tree} (h : atomTree? t = some x) (s : Shape) :
    s.feed t = s.add x ∧ t.group ≠ .tick := by
  have hx := h
  unfold atomTree? at h
  unfold Shape.feed
  split at h
  · next hg =>
    split at h
    · cases h
    · next hdot => simp [hg, hdot, hx]
  · next hg => simp [hg, hx]
  · cases h

/-! ## Every datum is read -/

namespace Shape

theorem feed_opening {t : Token} (h : t.group = .opening) (s : Shape) :
    s.feed t = some { s with inner := ⟨[], none, false⟩ :: s.inner } := by
  simp [feed, h]

theorem feed_tick {t : Token} (h : t.group = .tick) (s : Shape) :
    s.feed t = some { s with inner := ⟨[], none, true⟩ :: s.inner } := by
  simp [feed, h]

theorem feed_closing {t : Token} (h : t.group = .closing) (s : Shape) (f : Slot) (fs : List Slot)
    (hi : s.inner = f :: fs) (hf : f.tick = false) :
    s.feed t = (closed f).bind fun x => Shape.add ⟨s.top, fs⟩ x := by
  simp [feed, h, hi, hf]

theorem feed_dot {t : Token} (hg : t.group = .atom) (hd : t.text = ".") (s : Shape) (f : Slot)
    (fs : List Slot) (hi : s.inner = f :: fs) (hf : f.tick = false) (hne : f.items ≠ [])
    (hdot : f.dot = none) :
    s.feed t = some { s with inner := { f with dot := some f.items.length } :: fs } := by
  have hne' : f.items.isEmpty = false := by simpa using hne
  simp [feed, hg, hd, hi, current, hf, hne', hdot, setCurrent]

theorem deliver_untied {s : Shape} (ht : s.current.tick = false) (hd : s.current.dot = none)
    (b : Bool) (x : Tree) :
    deliver b s x = some (s.setCurrent { s.current with items := x :: s.current.items }) := by
  cases b <;> simp [deliver, add, full, hd, put_untied ht]

end Shape

open Shape

mutual

/-- Feeding the tokens of a datum delivers its tree. -/
theorem feedAll_datum : ∀ {ts : List Token} {x : Tree}, Datum ts x → ∀ (s : Shape) (more : List Token),
    s.feedAll (ts ++ more) = (deliver (startsTicked ts) s x).bind fun s' => s'.feedAll more
  | _, _, .atom h, s, more => by
    obtain ⟨hfeed, hg⟩ := feed_of_atomTree? h s
    simp [feedAll, hfeed, deliver, startsTicked, hg]
  | _, _, @Datum.tick _ ts x hg hd, s, more => by
    have hdel : ∀ b, deliver b ⟨s.top, ⟨[], none, true⟩ :: s.inner⟩ x = some (s.put (quoteTree x)) := by
      intro b
      cases b <;> simp [deliver, put_ticked, add_ticked]
    rw [List.cons_append, feedAll, feed_tick hg]
    simp only [Option.bind_some]
    rw [feedAll_datum hd, hdel]
    simp [deliver, startsTicked, hg]
  | _, _, @Datum.list o c ts xs ho hc hd, s, more => by
    have hopen := feedAll_data hd ⟨s.top, ⟨[], none, false⟩ :: s.inner⟩ (c :: more) rfl rfl
    simp only [current, setCurrent, List.append_nil] at hopen
    have hclose : (⟨s.top, ⟨xs.reverse, none, false⟩ :: s.inner⟩ : Shape).feed c =
        s.add (Tree.ofList xs Tree.nil) := by
      rw [feed_closing hc _ _ _ rfl rfl]
      simp [closed]
    have hg : o.group ≠ .tick := by simp [ho]
    simp only [List.cons_append, List.append_assoc, List.nil_append]
    rw [feedAll, Shape.feed_opening ho, Option.bind_some, hopen, feedAll, hclose]
    simp [deliver, startsTicked, hg]
  | _, _, @Datum.dotted o d c ts us xs front tail ho hdg hdt hc hd hne ha, s, more => by
    have hopen := feedAll_data hd ⟨s.top, ⟨[], none, false⟩ :: s.inner⟩ (d :: (us ++ c :: more)) rfl rfl
    simp only [current, setCurrent, List.append_nil] at hopen
    have hdot : (⟨s.top, ⟨xs.reverse, none, false⟩ :: s.inner⟩ : Shape).feed d =
        some ⟨s.top, ⟨xs.reverse, some xs.length, false⟩ :: s.inner⟩ := by
      rw [feed_dot hdg hdt _ _ _ rfl rfl (by simpa using hne) rfl]
      simp
    have hafter := feedAll_after ha ⟨s.top, ⟨xs.reverse, some xs.length, false⟩ :: s.inner⟩
      (c :: more) xs.length rfl rfl (by simp [current])
    simp only [current, setCurrent] at hafter
    have hclose : (⟨s.top, ⟨tail :: front.reverse ++ xs.reverse, some xs.length, false⟩ :: s.inner⟩ :
        Shape).feed c = s.add (Tree.ofList (xs ++ front) tail) := by
      rw [feed_closing hc _ _ _ rfl rfl]
      simp [closed, show front.length + xs.length + 1 ≠ xs.length by omega]
    have hg : o.group ≠ .tick := by simp [ho]
    simp only [List.cons_append, List.append_assoc, List.nil_append]
    rw [feedAll, Shape.feed_opening ho, Option.bind_some, hopen, feedAll, hdot, Option.bind_some, hafter,
      feedAll, hclose]
    simp [deliver, startsTicked, hg]

theorem feedAll_data : ∀ {ts : List Token} {xs : List Tree}, Data ts xs →
    ∀ (s : Shape) (more : List Token), s.current.tick = false → s.current.dot = none →
    s.feedAll (ts ++ more) =
      (s.setCurrent { s.current with items := xs.reverse ++ s.current.items }).feedAll more
  | _, _, .nil, s, more, _, _ => by
    simp only [List.reverse_nil, List.nil_append, List.nil_append]
    rw [show ({ s.current with items := s.current.items } : Slot) = s.current from rfl,
      setCurrent_current]
  | _, _, @Data.cons ts us x xs hd hds, s, more, ht, hdot => by
    rw [List.append_assoc, feedAll_datum hd, deliver_untied ht hdot, Option.bind_some,
      feedAll_data hds _ more (by simpa using ht) (by simpa using hdot)]
    simp

theorem feedAll_after : ∀ {us : List Token} {front : List Tree} {y : Tree}, After us front y →
    ∀ (s : Shape) (more : List Token) (d : Nat), s.current.tick = false → s.current.dot = some d →
    s.current.items.length = d →
    s.feedAll (us ++ more) =
      (s.setCurrent { s.current with items := y :: front.reverse ++ s.current.items }).feedAll more
  | _, _, _, @After.one ts y hd, s, more, d, ht, hdot, hlen => by
    have hdel : deliver (startsTicked ts) s y =
        some (s.setCurrent { s.current with items := y :: s.current.items }) := by
      cases startsTicked ts <;> simp [deliver, add, full, hdot, hlen, put_untied ht]
    rw [feedAll_datum hd, hdel]
    simp
  | _, _, _, @After.tick us ts front y z t ha hg hd,
      s, more, d, ht, hdot, hlen => by
    rw [List.append_assoc, feedAll_after ha s _ d ht hdot hlen]
    set s' := s.setCurrent { s.current with items := y :: front.reverse ++ s.current.items }
    have ht' : s'.current.tick = false := by simpa [s'] using ht
    have hdel : ∀ b, deliver b ⟨s'.top, ⟨[], none, true⟩ :: s'.inner⟩ z =
        some (s'.setCurrent { s'.current with items := quoteTree z :: s'.current.items }) := by
      intro b
      cases b <;> simp [deliver, put_ticked, add_ticked, put_untied ht']
    rw [List.cons_append, feedAll, feed_tick hg, Option.bind_some, feedAll_datum hd, hdel]
    simp [s']

end

/-! ## Everything read is data -/

/-- An open list with the tokens that opened it and filled it so far: a tick waiting for its
part, a list of data, a list of data and its dot, or one with the part after its dot and any
ticked parts after that. -/
inductive Opened : Slot → List Token → Prop
  | tick {t : Token} : t.group = .tick → Opened ⟨[], none, true⟩ [t]
  | list {o : Token} {ts : List Token} {xs : List Tree} :
      o.group = .opening → Data ts xs → Opened ⟨xs.reverse, none, false⟩ (o :: ts)
  | dot {o d : Token} {ts : List Token} {xs : List Tree} :
      o.group = .opening → d.group = .atom → d.text = "." → Data ts xs → xs ≠ [] →
      Opened ⟨xs.reverse, some xs.length, false⟩ (o :: ts ++ [d])
  | after {o d : Token} {ts us : List Token} {xs front : List Tree} {y : Tree} :
      o.group = .opening → d.group = .atom → d.text = "." → Data ts xs → xs ≠ [] →
      After us front y →
      Opened ⟨y :: front.reverse ++ xs.reverse, some xs.length, false⟩ (o :: ts ++ d :: us)

/-- The tokens a shape has read: data at the outermost level, then what each open list read,
outermost first. -/
inductive ReadInto : Shape → List Token → Prop
  | top {ts : List Token} {xs : List Tree} : Data ts xs → ReadInto ⟨⟨xs.reverse, none, false⟩, []⟩ ts
  | opened {top f : Slot} {fs : List Slot} {ts us : List Token} :
      ReadInto ⟨top, fs⟩ ts → Opened f us → ReadInto ⟨top, f :: fs⟩ (ts ++ us)

theorem Data.snoc : ∀ {ts us : List Token} {xs : List Tree} {x : Tree},
    Data ts xs → Datum us x → Data (ts ++ us) (xs ++ [x])
  | _, _, _, _, .nil, hx => by simpa using Data.cons hx .nil
  | _, _, _, _, .cons hd hds, hx => by
    rw [List.append_assoc]
    exact .cons hd (hds.snoc hx)

theorem Data.singleton_iff {ts : List Token} {x : Tree} : Data ts [x] ↔ Datum ts x := by
  constructor
  · rintro (_ | ⟨hd, hnil⟩)
    cases hnil
    simpa using hd
  · intro hd
    simpa using Data.cons hd .nil

/-- A datum that a tick opens. -/
def Ticked (us : List Token) (x : Tree) : Prop :=
  ∃ t vs z, us = t :: vs ∧ t.group = .tick ∧ Datum vs z ∧ x = quoteTree z

/-- Putting a datum's tree into a shape reads its tokens after the shape's, where the innermost
list takes the tree unchecked: it is not full, or the datum is ticked. A waiting tick passes the
quotation on to the list around it, which takes it unchecked too. -/
theorem ReadInto.put {s : Shape} {ts : List Token} (h : ReadInto s ts) :
    ∀ {us : List Token} {x : Tree}, Datum us x → (s.full = false ∨ Ticked us x) →
      ReadInto (s.put x) (ts ++ us) := by
  induction h with
  | top hd =>
    intro us x hx _
    rw [put_untied rfl]
    simpa [setCurrent, current] using ReadInto.top (hd.snoc hx)
  | opened hr ho ih =>
    intro us x hx hput
    cases ho with
    | tick ht =>
      rw [put_ticked, List.append_assoc]
      exact ih (.tick ht hx) (.inr ⟨_, us, x, rfl, ht, hx, rfl⟩)
    | list ho hd =>
      rw [put_untied rfl]
      simpa [setCurrent, current] using ReadInto.opened hr (.list ho (hd.snoc hx))
    | dot ho hdg hdt hd hne =>
      rw [put_untied rfl]
      simpa [setCurrent, current] using ReadInto.opened hr (.after ho hdg hdt hd hne (.one hx))
    | after ho hdg hdt hd hne ha =>
      -- the list has its part after the dot: only a ticked datum gets in
      obtain hfull | ⟨t, vs, z, rfl, ht, hz, rfl⟩ := hput
      · simp [full, current] at hfull
      rw [put_untied rfl]
      simpa [setCurrent, current] using ReadInto.opened hr (.after ho hdg hdt hd hne (.tick ha ht hz))

theorem ReadInto.add {s s' : Shape} {ts us : List Token} {x : Tree} (h : ReadInto s ts)
    (hx : Datum us x) (hadd : s.add x = some s') : ReadInto s' (ts ++ us) := by
  unfold Shape.add at hadd
  split at hadd
  · cases hadd
  · next hfull =>
    cases hadd
    exact h.put hx (.inl (by simpa using hfull))

theorem ReadInto.close {s s' : Shape} {ts : List Token} {t : Token} (h : ReadInto s ts)
    (hg : t.group = .closing) (hf : s.feed t = some s') : ReadInto s' (ts ++ [t]) := by
  cases h with
  | top => simp [feed, hg] at hf
  | opened hr ho =>
    cases ho with
    | tick => simp [feed, hg] at hf
    | list ho hd =>
      simp only [feed, hg, closed, List.reverse_reverse, Option.bind_some] at hf
      simpa using hr.add (.list ho hg hd) hf
    | dot => simp [feed, hg, closed] at hf
    | @after o d ws us xs front y ho hdg hdt hd hne ha =>
      have hlen : front.length + xs.length + 1 ≠ xs.length := by omega
      simp [feed, hg, closed, hlen] at hf
      simpa using hr.add (.dotted ho hdg hdt hg hd hne ha) hf

/-- A dot marks where the tail of the innermost list starts. -/
theorem ReadInto.dot {s s' : Shape} {ts : List Token} {t : Token} (h : ReadInto s ts)
    (hg : t.group = .atom) (hdt : t.text = ".") (hf : s.feed t = some s') :
    ReadInto s' (ts ++ [t]) := by
  cases h with
  | top => simp [feed, hg, hdt] at hf
  | opened hr ho =>
    cases ho with
    | tick => simp [feed, hg, hdt, current] at hf
    | @list o ws xs ho hd =>
      by_cases hne : xs = []
      · subst hne
        simp [feed, hg, hdt, current] at hf
      · simp [feed, hg, hdt, current, setCurrent, hne] at hf
        subst hf
        simpa using ReadInto.opened hr (.dot ho hg hdt hd hne)
    | dot => simp [feed, hg, hdt, current] at hf
    | after => simp [feed, hg, hdt, current] at hf

/-- An atom or a string is a datum of its own. -/
theorem ReadInto.atom {s s' : Shape} {ts : List Token} {t : Token} {x : Tree} (h : ReadInto s ts)
    (hx : atomTree? t = some x) (hf : s.feed t = some s') : ReadInto s' (ts ++ [t]) := by
  rw [(feed_of_atomTree? hx s).1] at hf
  exact h.add (.atom hx) hf

/-- Reading a significant token keeps a shape a reading of the tokens so far. -/
theorem ReadInto.feed {s s' : Shape} {ts : List Token} {t : Token} (h : ReadInto s ts)
    (ht : t.significant = true) (hf : s.feed t = some s') : ReadInto s' (ts ++ [t]) := by
  cases hg : t.group with
  | blank | remark => simp [Token.significant, hg] at ht
  | opening =>
    rw [Shape.feed_opening hg] at hf
    cases hf
    exact h.opened (.list hg .nil)
  | tick =>
    rw [Shape.feed_tick hg] at hf
    cases hf
    exact h.opened (.tick hg)
  | closing => exact h.close hg hf
  | string =>
    cases hx : atomTree? t with
    | none => simp [Shape.feed, hg, hx] at hf
    | some x => exact h.atom hx hf
  | atom =>
    by_cases hdt : t.text = "."
    · exact h.dot hg hdt hf
    · cases hx : atomTree? t with
      | none => simp [Shape.feed, hg, hdt, hx] at hf
      | some x => exact h.atom hx hf

theorem ReadInto.feedAll {s s' : Shape} {ts us : List Token} (h : ReadInto s ts)
    (hs : ∀ t ∈ us, t.significant = true) (hf : s.feedAll us = some s') :
    ReadInto s' (ts ++ us) := by
  induction us generalizing s ts with
  | nil =>
    cases hf
    simpa using h
  | cons t us ih =>
    simp only [Shape.feedAll] at hf
    obtain ⟨s₁, h₁, hrest⟩ := Option.bind_eq_some_iff.1 hf
    have hread := h.feed (hs t (by simp)) h₁
    simpa using ih hread (fun u hu => hs u (by simp [hu])) hrest

theorem start_feedAll_iff {ts : List Token} (hs : ∀ t ∈ ts, t.significant = true)
    (xs : List Tree) :
    (∃ sh, Shape.start.feedAll ts = some sh ∧ sh.inner = [] ∧ sh.top.tick = false ∧
      sh.top.items.reverse = xs) ↔ Data ts xs := by
  constructor
  · rintro ⟨⟨top, inner⟩, hf, hinner, -, rfl⟩
    subst hinner
    have hread := (ReadInto.top .nil).feedAll hs hf
    cases hread with
    | top hd => simpa using hd
  · intro hd
    have hf := feedAll_data hd Shape.start [] rfl rfl
    simp only [List.append_nil] at hf
    exact ⟨_, hf, rfl, rfl, by simp [Shape.start, setCurrent, current]⟩

/-- A text reads as trees exactly when it scans and its significant tokens are data, and then it
reads as their trees; it reads as one tree exactly when they are one datum. -/
theorem parse_iff_grammar (s : String) :
    (∀ x, parse s = .ok x ↔ (scan s).2 = none ∧ Datum ((scan s).1.filter Token.significant) x) ∧
    ∀ xs, parseMany s = .ok xs ↔
      (scan s).2 = none ∧ Data ((scan s).1.filter Token.significant) xs := by
  have hmany : ∀ xs, parseMany s = .ok xs ↔
      (scan s).2 = none ∧ Data ((scan s).1.filter Token.significant) xs := by
    intro xs
    rw [parseMany_eq_ok_iff, readAll_trees, Shape.feedAll_significant,
      start_feedAll_iff (fun t ht => (List.mem_filter.1 ht).2)]
  refine ⟨fun x => ?_, hmany⟩
  rw [parse_eq_ok_iff, ← parseMany_eq_ok_iff, hmany, Data.singleton_iff]

end PuzzleKit.SExpr
