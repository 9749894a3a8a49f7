import PuzzleKit.Proofs.RenderParse
import PuzzleKit.Proofs.Layout
import Mathlib.Data.List.DropRight
import Mathlib.Data.List.TakeWhile

/-!
# What reading a text keeps

The scanner ends an atom at every character that cannot stand in one and a remark at its line
break (`scan_clean`). The reader keeps each remark of a text in exactly one place: with the part
it precedes, under the key of a shared part, or after the last part as a trailing remark
(`readAll_keeps_remarks`). `Reader.held` gathers what a reader keeps; a token adds its text if
it is a remark and moves the rest, and `Reader.Sound` is what makes the count come out (one
entry per key, and an open tick waiting for its one part). No atom read from a text is written
with a final line break (`readAll_unbroken`), so every part read writes back as compact text
that reads again.
-/

namespace PuzzleKit.SExpr

/-! ## Tokens keep to their class -/

/-- What the scanner promises of a token's text: an atom is a run of atom characters, and a
remark stops before the line break. -/
def Token.Clean (t : Token) : Prop :=
  (t.group = .atom → ∀ c ∈ t.text.toList, isAtomChar c = true) ∧
    (t.group = .remark → '\n' ∉ t.text.toList)

/-- The same of the token being read. -/
def Partial.Clean : Partial → Prop
  | .run .atom _ acc => ∀ c ∈ acc, isAtomChar c = true
  | .run .remark _ acc => '\n' ∉ acc
  | _ => True

theorem Token.clean_of_group {t : Token} (ha : t.group ≠ .atom) (hr : t.group ≠ .remark) :
    t.Clean :=
  ⟨fun h => absurd h ha, fun h => absurd h hr⟩

theorem Partial.Clean.finish {st : Partial} (h : st.Clean) : ∀ t ∈ st.finish, t.Clean := by
  intro t ht
  cases st with
  | idle => simp [Partial.finish] at ht
  | run g p acc =>
    simp only [Partial.finish, List.mem_singleton] at ht
    subst ht
    cases g <;> simp_all [Partial.Clean, Token.Clean]
  | string p acc e =>
    simp only [Partial.finish, List.mem_singleton] at ht
    subst ht
    exact Token.clean_of_group (by simp) (by simp)

theorem begin_clean {c : Char} {p : Pos} {ts : List Token} {st : Partial}
    (h : begin c p = .ok (ts, st)) : (∀ t ∈ ts, t.Clean) ∧ st.Clean := by
  unfold begin at h
  split_ifs at h <;> simp only [Except.ok.injEq, Prod.mk.injEq] at h <;>
    obtain ⟨rfl, rfl⟩ := h <;> simp_all [Token.Clean, Partial.Clean]

theorem step_clean {st : Partial} (hst : st.Clean) (c : Char) (p : Pos) :
    (∀ t ∈ (step st c p).1, t.Clean) ∧ ∀ st', (step st c p).2 = .ok st' → st'.Clean := by
  unfold step
  cases st with
  | idle =>
    dsimp only
    split
    · next ts st' hb =>
      obtain ⟨h1, h2⟩ := begin_clean hb
      exact ⟨by simpa using h1, by rintro _ ⟨⟩; exact h2⟩
    · exact ⟨by simp, by rintro _ ⟨⟩⟩
  | run g first acc =>
    dsimp only
    split
    · next hc =>
      refine ⟨by simp, ?_⟩
      rintro _ ⟨⟩
      cases g with
      | atom => simp_all [Partial.Clean, continues]
      | remark =>
        simp only [Partial.Clean, continues, decide_eq_true_eq, List.mem_cons, not_or] at hst hc ⊢
        exact ⟨Ne.symm hc, hst⟩
      | _ => trivial
    · have hfin := Partial.Clean.finish hst
      split
      · next ts st' hb =>
        obtain ⟨h1, h2⟩ := begin_clean hb
        refine ⟨?_, by rintro _ ⟨⟩; exact h2⟩
        intro t ht
        rcases List.mem_append.mp ht with ht | ht
        · exact hfin t ht
        · exact h1 t ht
      · exact ⟨hfin, by rintro _ ⟨⟩⟩
  | string first acc escaped =>
    dsimp only
    split_ifs <;> simp [Token.Clean, Partial.Clean]

theorem scanFrom_clean : ∀ (cs : List Char) {st : Partial} (p : Pos), st.Clean →
    ∀ t ∈ (scanFrom cs st p).1, t.Clean
  | [], st, p, hst => by
    cases st with
    | string => simp [scanFrom]
    | idle => exact hst.finish
    | run => exact hst.finish
  | c :: cs, st, p, hst => by
    obtain ⟨hts, hst'⟩ := step_clean hst c p
    rw [scanFrom]
    split
    · next ts e h =>
      rw [h] at hts
      exact hts
    · next ts st' h =>
      rw [h] at hts hst'
      intro t ht
      rcases List.mem_append.mp ht with ht | ht
      · exact hts t ht
      · exact scanFrom_clean cs _ (hst' st' rfl) t ht

/-- Every token of a scan keeps to its class: atoms of atom characters, remarks on one line. -/
theorem scan_clean (s : String) : ∀ t ∈ (scan s).1, t.Clean :=
  scanFrom_clean s.toList Pos.start trivial

end PuzzleKit.SExpr

namespace PuzzleKit

/-! ## Trimmed remark text -/

namespace Text

theorem mem_of_mem_trim {s : String} {c : Char} (h : c ∈ (trim s).toList) : c ∈ s.toList := by
  simp only [trim, String.toList_ofList, List.mem_reverse] at h
  exact (List.dropWhile_sublist _).subset (List.mem_reverse.mp ((List.dropWhile_sublist _).subset h))

theorem dropWhile_reverse_trim (s : String) :
    (trim s).toList.reverse.dropWhile isBlank = (trim s).toList.reverse := by
  simp [trim, List.dropWhile_idempotent]

theorem dropWhile_trim (s : String) : (trim s).toList.dropWhile isBlank = (trim s).toList := by
  simp only [trim, String.toList_ofList]
  rw [List.dropWhile_eq_self_iff]
  intro hl
  have hpre : ((s.toList.dropWhile isBlank).reverse.dropWhile isBlank).reverse <+:
      s.toList.dropWhile isBlank := List.rdropWhile_prefix _ _
  have hl' : 0 < (s.toList.dropWhile isBlank).length :=
    Nat.lt_of_lt_of_le hl hpre.length_le
  have hfirst := List.dropWhile_get_zero_not isBlank s.toList hl'
  rw [List.IsPrefix.getElem hpre hl]
  simpa using hfirst

end Text

namespace SExpr

theorem reread_trim (s : String) : reread (Text.trim s) = Text.trim s := by
  have hsp : Text.isBlank ' ' = true := isBlank_space
  have hstart := Text.dropWhile_trim s
  have hend := Text.dropWhile_reverse_trim s
  generalize Text.trim s = t at hstart hend
  rw [reread, Text.trim, String.toList_ofList, List.dropWhile_cons_of_pos hsp, hstart, hend,
    List.reverse_reverse, String.ofList_toList]

end SExpr

end PuzzleKit

namespace PuzzleKit

/-! ## Where the reader keeps remarks -/

/-- The remarks a tag keeps with its part itself. -/
def Tag.kept : Tag → List String
  | .own ns => ns
  | .shared _ => []

namespace Noted

/-- Every remark kept with a part or with a part inside it; those of shared parts are kept
elsewhere. -/
def ownNotes : Noted → List String
  | .atom _ _ t => t.kept
  | .cons f r t => t.kept ++ f.ownNotes ++ r.ownNotes

theorem ownNotes_ofList (items : List Noted) (tail : Noted) :
    (ofList items tail).ownNotes = items.flatMap ownNotes ++ tail.ownNotes := by
  induction items with
  | nil => rfl
  | cons x xs ih =>
    simp only [ofList, List.foldr_cons] at ih ⊢
    simp [ownNotes, Tag.kept, ih]

end Noted

namespace Remarks

/-- Every remark kept under a key. -/
def all (rm : Remarks) : List String := rm.entries.flatMap (·.2)

/-- No key has two entries. -/
def Keyed (rm : Remarks) : Prop := (rm.entries.map (·.1)).Nodup

theorem flatMap_appendAt {k : Key} {ns : List String} (g : Key × List String → Key × List String)
    (hg : ∀ e, (g e).2 = if e.1 = k then e.2 ++ ns else e.2) :
    ∀ (es : List (Key × List String)), (es.map (·.1)).Nodup → (∃ e ∈ es, e.1 = k) →
      ((es.map g).flatMap (·.2)).Perm (es.flatMap (·.2) ++ ns)
  | [], _, ⟨_, he, _⟩ => absurd he (List.not_mem_nil)
  | e :: es, hnd, hex => by
    simp only [List.map_cons, List.nodup_cons, List.mem_map] at hnd
    simp only [List.map_cons, List.flatMap_cons, hg, List.append_assoc]
    by_cases hk : e.1 = k
    · -- the key stands once: the other entries keep their remarks
      have hrest : (es.map g).flatMap (·.2) = es.flatMap (·.2) := by
        rw [List.flatMap_map]
        apply List.flatMap_congr
        intro e' he'
        have hne : e'.1 ≠ k := fun h => hnd.1 ⟨e', he', h.trans hk.symm⟩
        simp [hg, hne]
      rw [if_pos hk, hrest, List.append_assoc]
      exact (List.perm_append_comm.append_left _)
    · have hes : ∃ e ∈ es, e.1 = k := by
        obtain ⟨e', he', hk'⟩ := hex
        rcases List.mem_cons.mp he' with rfl | he'
        · exact absurd hk' hk
        · exact ⟨e', he', hk'⟩
      rw [if_neg hk]
      exact (flatMap_appendAt g hg es hnd.2 hes).append_left _

theorem attach_all {rm : Remarks} (hk : rm.Keyed) (k : Key) (ns : List String) :
    (rm.attach k ns).all.Perm (rm.all ++ ns) ∧ (rm.attach k ns).Keyed := by
  unfold attach
  split_ifs with he hany
  · simpa [List.isEmpty_iff.mp he] using hk
  · obtain ⟨e, he', hek⟩ := List.any_eq_true.mp hany
    refine ⟨flatMap_appendAt _ ?_ rm.entries hk ⟨e, he', by simpa using hek⟩, ?_⟩
    · intro e
      obtain ⟨k', ns'⟩ := e
      by_cases h : k' = k <;> simp [h]
    · unfold Keyed at hk ⊢
      rw [List.map_map]
      convert hk using 2
      funext e
      obtain ⟨k', ns'⟩ := e
      by_cases h : k' = k <;> simp [h]
  · refine ⟨by simp [all], ?_⟩
    unfold Keyed
    simp only [List.map_append, List.map_cons, List.map_nil]
    rw [List.nodup_append]
    refine ⟨hk, by simp, ?_⟩
    intro a ha b hb
    simp only [List.mem_singleton] at hb
    subst hb
    simp only [List.any_eq_true, beq_iff_eq, not_exists, not_and] at hany
    obtain ⟨e, he, rfl⟩ := List.mem_map.mp ha
    exact hany e he

theorem count_eq_length (rm : Remarks) : rm.count = rm.all.length := by
  obtain ⟨entries, joints⟩ := rm
  simp only [count, all]
  induction entries with
  | nil => rfl
  | cons e es ih => simp [ih]

end Remarks

theorem Noted.attach_held {rm : Remarks} (hk : rm.Keyed) (n : Noted) (ns : List String) :
    ((n.attach rm ns).1.ownNotes ++ (n.attach rm ns).2.all).Perm (n.ownNotes ++ rm.all ++ ns) ∧
      (n.attach rm ns).2.Keyed := by
  cases n with
  | atom b h t =>
    cases t with
    | own ns' =>
      refine ⟨?_, hk⟩
      simp only [attach, tag, withTag, ownNotes, Tag.kept]
      rw [List.perm_iff_count]
      intro a
      simp only [List.count_append]
      omega
    | shared k =>
      obtain ⟨hp, hk'⟩ := rm.attach_all hk k ns
      refine ⟨?_, hk'⟩
      simp only [attach, tag, List.append_assoc]
      exact hp.append_left _
  | cons f r t =>
    cases t with
    | own ns' =>
      refine ⟨?_, hk⟩
      simp only [attach, tag, withTag, ownNotes, Tag.kept]
      rw [List.perm_iff_count]
      intro a
      simp only [List.count_append]
      omega
    | shared k =>
      obtain ⟨hp, hk'⟩ := rm.attach_all hk k ns
      refine ⟨?_, hk'⟩
      simp only [attach, tag, List.append_assoc]
      exact hp.append_left _

end PuzzleKit

namespace PuzzleKit.SExpr

/-- The remarks a list being read keeps: those before it and those of its parts so far. -/
def Frame.held (f : Frame) : List String := f.notes ++ f.items.flatMap Noted.ownNotes

namespace Reader

/-- Every remark a reader keeps: waiting, with the parts read so far, and under keys. -/
def held (r : Reader) : List String :=
  r.pending ++ r.top.items.flatMap Noted.ownNotes ++ r.inner.flatMap Frame.held ++ r.remarks.all

/-- What reading keeps true of a reader: the shared remarks have one entry per key, and an open
tick still waits for its part. -/
structure Sound (r : Reader) : Prop where
  keyed : r.remarks.Keyed
  ticks : ∀ f ∈ r.inner, f.tick = true → f.items = []

theorem attach_eq (r : Reader) (el : Noted) :
    r.attach el = ({ r with pending := [], remarks := (el.attach r.remarks r.pending).2 },
      (el.attach r.remarks r.pending).1) := rfl

@[simp] theorem remarks_setCurrent (r : Reader) (f : Frame) : (r.setCurrent f).remarks = r.remarks := by
  unfold setCurrent
  split <;> rfl

theorem closeTicks_held : ∀ (fs : List Frame) (top : Frame),
    (∀ f ∈ fs.head?, f.tick = true → f.items.length ≤ 1) →
    (∀ f ∈ fs.tail, f.tick = true → f.items = []) →
    ((closeTicks fs top).1.flatMap Frame.held ++
        (closeTicks fs top).2.items.flatMap Noted.ownNotes).Perm
      (fs.flatMap Frame.held ++ top.items.flatMap Noted.ownNotes) ∧
    ∀ f ∈ (closeTicks fs top).1, f.tick = true → f.items = []
  | [], top, _, _ => by simp [closeTicks]
  | [f], top, hhead, _ => by
    rw [closeTicks]
    split
    · next x xs htick hitems =>
      have hxs : xs = [] := by
        have := hhead f rfl htick
        simp only [hitems, List.length_cons] at this
        exact List.eq_nil_of_length_eq_zero (by omega)
      subst hxs
      refine ⟨?_, by simp⟩
      simp only [List.flatMap_nil, List.nil_append, List.flatMap_cons, Frame.held, hitems,
        quoted, Noted.ownNotes, Tag.kept, List.flatMap_nil, List.append_nil]
      rw [List.perm_iff_count]
      intro a
      simp only [List.count_append]
    · next hnot =>
      refine ⟨List.Perm.refl _, ?_⟩
      intro g hg htick
      simp only [List.mem_singleton] at hg
      subst hg
      cases hi : g.items with
      | nil => rfl
      | cons x xs => exact absurd hi (hnot x xs htick)
  | f :: g :: gs, top, hhead, htail => by
    rw [closeTicks]
    split
    · next x xs htick hitems =>
      have hxs : xs = [] := by
        have := hhead f rfl htick
        simp only [hitems, List.length_cons] at this
        exact List.eq_nil_of_length_eq_zero (by omega)
      subst hxs
      have hg : g.tick = true → g.items = [] := htail g (by simp)
      obtain ⟨hp, hticks⟩ := closeTicks_held ({ g with items := quoted x f.notes :: g.items } :: gs) top
        (by
          intro g' hg' htick'
          simp only [List.head?_cons, Option.mem_def, Option.some.injEq] at hg'
          subst hg'
          simp [hg htick'])
        (fun g' hg' => htail g' (List.mem_cons_of_mem g hg'))
      refine ⟨hp.trans ?_, hticks⟩
      simp only [List.flatMap_cons, Frame.held, hitems, quoted, Noted.ownNotes, Tag.kept,
        List.flatMap_nil, List.append_nil]
      rw [List.perm_iff_count]
      intro a
      simp only [List.count_append]
      omega
    · next hnot =>
      refine ⟨List.Perm.refl _, ?_⟩
      intro g' hg' htick
      rcases List.mem_cons.mp hg' with rfl | hg'
      · cases hi : g'.items with
        | nil => rfl
        | cons x xs => exact absurd hi (hnot x xs htick)
      · exact htail g' hg' htick
termination_by fs => fs.length

theorem put_held (r : Reader) (el : Noted) (ht : ∀ f ∈ r.inner, f.tick = true → f.items = [])
    {r₂ : Reader} (h₂ : r₂ = r.setCurrent { r.current with items := el :: r.current.items }) :
    (({ r₂ with inner := (closeTicks r₂.inner r₂.top).1, top := (closeTicks r₂.inner r₂.top).2 } :
        Reader).held.Perm (r.held ++ el.ownNotes)) ∧
      ∀ f ∈ (closeTicks r₂.inner r₂.top).1, f.tick = true → f.items = [] := by
  subst h₂
  cases hin : r.inner with
  | nil =>
    simp only [setCurrent, current, hin, closeTicks]
    refine ⟨?_, by simp⟩
    simp only [held, hin, List.flatMap_cons, List.flatMap_nil]
    rw [List.perm_iff_count]
    intro a
    simp only [List.count_append]
    omega
  | cons g gs =>
    simp only [setCurrent, current, hin]
    obtain ⟨hp, hticks⟩ := closeTicks_held ({ g with items := el :: g.items } :: gs) r.top
      (by
        intro g' hg' htick
        simp only [List.head?_cons, Option.mem_def, Option.some.injEq] at hg'
        subst hg'
        simp [ht g (by simp [hin]) htick])
      (fun g' hg' => ht g' (by rw [hin]; exact List.mem_cons_of_mem g hg'))
    refine ⟨?_, hticks⟩
    rw [List.perm_iff_count] at hp ⊢
    intro a
    have ha := hp a
    simp only [held, hin, Frame.held, List.flatMap_cons, List.count_append] at ha ⊢
    omega

theorem add_held {r r' : Reader} (hs : r.Sound) {el : Noted} {p : Pos} (h : r.add el p = .ok r') :
    r'.Sound ∧ r'.held.Perm (r.held ++ el.ownNotes) := by
  unfold add at h
  rw [attach_eq] at h
  dsimp only at h
  obtain ⟨hattach, hkeyed⟩ := el.attach_held hs.keyed r.pending
  generalize el.attach r.remarks r.pending = a at h hattach hkeyed
  obtain ⟨el₁, rm₁⟩ := a
  dsimp only at h hattach hkeyed
  set r₁ : Reader := { r with pending := [], remarks := rm₁ } with hr₁
  obtain ⟨hp, hticks⟩ := put_held r₁ el₁ hs.ticks rfl
  have hr' : r' = ({ (r₁.setCurrent { r₁.current with items := el₁ :: r₁.current.items }) with
      inner := (closeTicks (r₁.setCurrent { r₁.current with items := el₁ :: r₁.current.items }).inner
        (r₁.setCurrent { r₁.current with items := el₁ :: r₁.current.items }).top).1,
      top := (closeTicks (r₁.setCurrent { r₁.current with items := el₁ :: r₁.current.items }).inner
        (r₁.setCurrent { r₁.current with items := el₁ :: r₁.current.items }).top).2 } : Reader) := by
    split at h
    · split_ifs at h
      exact (Except.ok.inj h).symm
    · exact (Except.ok.inj h).symm
  subst hr'
  refine ⟨⟨?_, hticks⟩, ?_⟩
  · simpa [hr₁] using hkeyed
  · refine hp.trans ?_
    rw [List.perm_iff_count] at hattach ⊢
    intro a
    have ha := hattach a
    simp only [held, hr₁, List.count_append, List.count_nil] at ha ⊢
    omega

theorem closed_ownNotes (p : Pos) (f : Frame) {el : Noted}
    (h : (match f.dot with
      | some d =>
        if f.items.reverse.length = d then (.error (.missingAfterDot p) : Except ReadError Noted)
        else
          match f.items with
          | tail :: before => .ok (Noted.ofList before.reverse tail)
          | [] => .ok Noted.nil
      | none => .ok (Noted.ofList f.items.reverse)) = .ok el) :
    el.ownNotes.Perm (f.items.flatMap Noted.ownNotes) := by
  obtain ⟨items, dot, pos, notes, tick⟩ := f
  cases dot with
  | none =>
    cases h
    simpa [Noted.ownNotes_ofList, Noted.nil, Noted.ownNotes, Tag.kept] using
      (List.reverse_perm items).flatMap_right Noted.ownNotes
  | some d =>
    dsimp only at h
    split_ifs at h
    cases items with
    | nil =>
      cases h
      simp [Noted.nil, Noted.ownNotes, Tag.kept]
    | cons x xs =>
      cases h
      rw [Noted.ownNotes_ofList, List.flatMap_cons]
      exact (((List.reverse_perm xs).flatMap_right Noted.ownNotes).append_right _).trans
        List.perm_append_comm

theorem atomOf_ownNotes {x : String} {p : Pos} {el : Noted} (h : atomOf x p = .ok el) :
    el.ownNotes = [] := by
  unfold atomOf at h
  dsimp only at h
  split_ifs at h
  · cases h
    rfl
  · cases h
    rfl
  · -- hex digits, an odd count of them padded
    split at h
    · cases h
      rfl
    · cases h
  · split at h
    · cases h
      rfl
    · cases h
  · cases h
    rfl

theorem feed_held {r r' : Reader} (hs : r.Sound) {t : Token} (h : r.feed t = .ok r') :
    r'.Sound ∧ r'.held.Perm (r.held ++ remarksOf [t.kind]) := by
  unfold feed at h
  cases hg : t.group with
  | blank =>
    simp only [hg, Except.ok.injEq] at h
    subst h
    simp [remarksOf, Token.kind, hg, hs]
  | remark =>
    simp only [hg, Except.ok.injEq] at h
    subst h
    refine ⟨⟨hs.keyed, hs.ticks⟩, ?_⟩
    simp only [held, remarksOf, Token.kind, hg, List.filterMap_cons, if_true, List.filterMap_nil]
    rw [List.perm_iff_count]
    intro a
    simp only [List.count_append]
    omega
  | opening =>
    simp only [hg, Except.ok.injEq] at h
    subst h
    refine ⟨⟨hs.keyed, ?_⟩, ?_⟩
    · intro f hf htick
      rcases List.mem_cons.mp hf with rfl | hf
      · cases htick
      · exact hs.ticks f hf htick
    · simp only [held, Frame.held, remarksOf, Token.kind, hg, List.flatMap_cons, List.flatMap_nil,
        List.filterMap_cons, reduceCtorEq, if_false, List.filterMap_nil, List.append_nil]
      rw [List.perm_iff_count]
      intro a
      simp only [List.count_append, List.count_nil]
      omega
  | tick =>
    simp only [hg, Except.ok.injEq] at h
    subst h
    refine ⟨⟨hs.keyed, ?_⟩, ?_⟩
    · intro f hf htick
      rcases List.mem_cons.mp hf with rfl | hf
      · rfl
      · exact hs.ticks f hf htick
    · simp only [held, Frame.held, remarksOf, Token.kind, hg, List.flatMap_cons, List.flatMap_nil,
        List.filterMap_cons, reduceCtorEq, if_false, List.filterMap_nil, List.append_nil]
      rw [List.perm_iff_count]
      intro a
      simp only [List.count_append, List.count_nil]
      omega
  | closing =>
    simp only [hg] at h
    split at h
    · cases h
    · next f fs hin =>
      split_ifs at h with htick
      simp only [Except.bind] at h
      split at h
      · cases h
      · next el hel =>
        have hs₀ : ({ r with inner := fs, pending := f.notes ++ r.pending } : Reader).Sound :=
          ⟨hs.keyed, fun g hg' => hs.ticks g (by rw [hin]; exact List.mem_cons_of_mem f hg')⟩
        obtain ⟨hs', hp⟩ := add_held hs₀ h
        refine ⟨hs', hp.trans ?_⟩
        have hel' := closed_ownNotes t.pos f hel
        rw [List.perm_iff_count] at hel' ⊢
        intro a
        have ha := hel' a
        simp only [held, hin, Frame.held, remarksOf, Token.kind, hg, List.flatMap_cons,
          List.filterMap_cons, reduceCtorEq, if_false, List.filterMap_nil, List.append_nil,
          List.count_append] at ha ⊢
        omega
  | string =>
    simp only [hg, Except.bind] at h
    split at h
    · cases h
    · obtain ⟨hs', hp⟩ := add_held hs h
      refine ⟨hs', ?_⟩
      simpa [remarksOf, Token.kind, hg, Noted.ownNotes, Tag.kept] using hp
  | atom =>
    simp only [hg] at h
    split_ifs at h with hdot hbad hnone
    · -- the dot marks where the tail starts
      cases h
      refine ⟨⟨by simpa using hs.keyed, ?_⟩, ?_⟩
      · unfold setCurrent
        split
        · next g gs hin =>
          intro f hf htick
          rcases List.mem_cons.mp hf with rfl | hf
          · simp only [current, hin] at htick hbad ⊢
            simp_all
          · exact hs.ticks f (by rw [hin]; exact List.mem_cons_of_mem g hf) htick
        · next hin => simp [hin]
      · unfold setCurrent
        split
        · next g gs hin =>
          simp [held, Frame.held, current, hin, remarksOf, Token.kind, hg]
        · next hin =>
          simp [held, current, hin, remarksOf, Token.kind, hg]
    · simp only [Except.bind] at h
      split at h
      · cases h
      · next el hel =>
        obtain ⟨hs', hp⟩ := add_held hs h
        refine ⟨hs', ?_⟩
        simpa [remarksOf, Token.kind, hg, atomOf_ownNotes hel] using hp

theorem feedAll_held : ∀ {r r' : Reader} (ts : List Token), r.Sound → r.feedAll ts = .ok r' →
    r'.Sound ∧ r'.held.Perm (r.held ++ remarksOf (ts.map Token.kind))
  | r, r', [], hs, h => by
    cases h
    simpa [remarksOf] using hs
  | r, r', t :: ts, hs, h => by
    simp only [feedAll, Except.bind] at h
    split at h
    · cases h
    · next r₁ h₁ =>
      obtain ⟨hs₁, hp₁⟩ := feed_held hs h₁
      obtain ⟨hs', hp'⟩ := feedAll_held ts hs₁ h
      refine ⟨hs', hp'.trans ?_⟩
      have hcons : remarksOf ((t :: ts).map Token.kind) = remarksOf [t.kind] ++ remarksOf (ts.map Token.kind) := by
        rw [List.map_cons, ← remarksOf_append]
        rfl
      rw [hcons, ← List.append_assoc]
      exact hp₁.append_right _

end Reader

end PuzzleKit.SExpr

namespace PuzzleKit.SExpr

/-! ## The remarks of a text -/

/-- The remarks of a text, as the reader keeps their text: the `;` dropped and the rest
trimmed. -/
def remarkTexts (s : String) : List String := remarksOf ((scan s).1.map Token.kind)

theorem mem_remarkTexts {s c : String} (h : c ∈ remarkTexts s) :
    ∃ x : String, c = Text.trim x ∧ '\n' ∉ x.toList := by
  unfold remarkTexts remarksOf at h
  obtain ⟨k, hk, hc⟩ := List.mem_filterMap.mp h
  obtain ⟨t, ht, rfl⟩ := List.mem_map.mp hk
  by_cases hg : t.group = .remark
  · have hc' : Text.trim (String.ofList (t.text.toList.drop 1)) = c := by
      simpa [Token.kind, hg] using hc
    refine ⟨_, hc'.symm, ?_⟩
    have hclean := (scan_clean s t ht).2 hg
    rw [String.toList_ofList]
    exact fun hn => hclean ((List.drop_sublist 1 _).subset hn)
  · simp [Token.kind, hg] at hc

/-- Reading a text keeps each of its remarks once: with a part, under a key, or trailing. -/
theorem readAll_keeps_remarks {s : String} {rd : Reading} (h : readAll s = .ok rd) :
    (rd.items.flatMap Noted.ownNotes ++ rd.remarks.all ++ rd.trailing).Perm (remarkTexts s) := by
  unfold readAll at h
  unfold remarkTexts
  generalize scan s = sc at h ⊢
  obtain ⟨toks, fault⟩ := sc
  dsimp only at h ⊢
  simp only [Except.bind] at h
  split at h
  · cases h
  · next r hr =>
    have hs₀ : Reader.Sound ⟨⟨[], none, Pos.start, [], false⟩, [], [], {}⟩ :=
      ⟨List.nodup_nil, by simp⟩
    obtain ⟨-, hp⟩ := Reader.feedAll_held toks hs₀ hr
    cases fault with
    | some e => cases h
    | none =>
      dsimp only at h
      split_ifs at h with htick hinner
      cases h
      have hin : r.inner = [] := by simpa using hinner
      have hrev := (List.reverse_perm r.top.items).flatMap_right Noted.ownNotes
      rw [List.perm_iff_count] at hp hrev ⊢
      intro a
      have h₁ := hp a
      have h₂ := hrev a
      simp only [Reader.held, hin, List.flatMap_nil, List.append_nil, List.nil_append,
        List.count_append, Remarks.all] at h₁ h₂ ⊢
      omega

/-! ## Atoms that write back -/

theorem getLast?_ne_of_forall {l : List Char} {d : Char} (h : ∀ c ∈ l, c ≠ d) :
    l.getLast? ≠ some d := fun hl => h d (List.mem_of_getLast? hl) rfl

theorem hexLiteral_getLast? (b : List UInt8) : (hexLiteral b).toList.getLast? ≠ some '\n' := by
  rw [toList_hexLiteral]
  apply getLast?_ne_of_forall
  intro c hc
  simp only [List.mem_cons, List.mem_flatMap] at hc
  rcases hc with rfl | rfl | ⟨x, -, hx⟩
  · decide
  · decide
  · -- a hex digit is no line break
    have hlt := x.toNat_lt
    simp only [Bytes.byteDigits, List.mem_cons, List.not_mem_nil, or_false] at hx
    rcases hx with rfl | rfl
    all_goals
      intro hn
      have hc := congrArg Char.toNat hn
      rw [Bytes.toNat_hexDigit (by omega)] at hc
      split_ifs at hc <;> simp at hc <;> omega

theorem renderAtom_newline {b : List UInt8} {h : Hint}
    (hn : (renderAtom b h).toList.getLast? = some '\n') :
    h = .symbol ∧ ∃ s, decodeUtf8? b = some s ∧ s.toList.getLast? = some '\n' := by
  unfold renderAtom at hn
  split_ifs at hn with he hi hss
  · simp at hn
  · -- an integer's digits
    refine absurd hn (getLast?_ne_of_forall fun c hc => ?_)
    have hdigit : ∀ n, ∀ c ∈ Nat.toDigits 10 n, c ≠ '\n' := by
      rintro n c hc rfl
      simpa using toDigits_all_isDigit n _ hc
    rcases toList_toString_int (Bytes.toInt b) with hs | hs <;> rw [hs] at hc
    · exact hdigit _ c hc
    · rcases List.mem_cons.mp hc with rfl | hc
      · decide
      · exact hdigit _ c hc
  · cases hd : decodeUtf8? b with
    | none => simp [hd] at hn; exact absurd hn (hexLiteral_getLast? b)
    | some s =>
      simp only [hd] at hn
      split_ifs at hn with hbare hq
      · simp only [Bool.and_eq_true, decide_eq_true_eq] at hbare
        exact ⟨hbare.1, s, rfl, hn⟩
      · rw [toList_quote, List.getLast?_concat] at hn
        simp at hn
      · exact absurd hn (hexLiteral_getLast? b)
  · exact absurd hn (hexLiteral_getLast? b)

end PuzzleKit.SExpr

namespace PuzzleKit

theorem Tree.hasNewlineAtom_ofList {items : List Tree} {tail : Tree}
    (h : ∀ x ∈ items, x.hasNewlineAtom = false) (ht : tail.hasNewlineAtom = false) :
    (Tree.ofList items tail).hasNewlineAtom = false := by
  induction items with
  | nil => exact ht
  | cons x xs ih =>
    simp only [Tree.ofList, List.foldr_cons] at ih ⊢
    simp [Tree.hasNewlineAtom, h x (by simp), ih fun y hy => h y (by simp [hy])]

namespace SExpr

theorem hasNewlineAtom_of_ne_symbol {b : List UInt8} {h : Hint} (hs : h ≠ .symbol) :
    (Tree.atom b h).hasNewlineAtom = false := by
  simp only [Tree.hasNewlineAtom, beq_eq_false_iff_ne, ne_eq]
  exact fun hn => hs (renderAtom_newline hn).1

theorem hasNewlineAtom_symbol {x : String} (hx : '\n' ∉ x.toList) (h : Hint) :
    (Tree.atom x.toUTF8.toList h).hasNewlineAtom = false := by
  simp only [Tree.hasNewlineAtom, beq_eq_false_iff_ne, ne_eq]
  intro hn
  obtain ⟨-, s, hs, hl⟩ := renderAtom_newline hn
  rw [decodeUtf8?, Text.decodeUtf8_toUTF8] at hs
  cases hs
  exact hx (List.mem_of_getLast? hl)

theorem hasNewlineAtom_quoteTree (x : Tree) : (quoteTree x).hasNewlineAtom = x.hasNewlineAtom := by
  have hq := hasNewlineAtom_symbol (x := "q") (by decide) .symbol
  rw [quoteTree, Tree.hasNewlineAtom, hq, Bool.false_or]

theorem atomOf_unbroken {x : String} {p : Pos} {el : Noted} (hx : '\n' ∉ x.toList)
    (h : atomOf x p = .ok el) : el.tree.hasNewlineAtom = false := by
  unfold atomOf at h
  dsimp only at h
  split_ifs at h
  · cases h
    exact hasNewlineAtom_of_ne_symbol (h := .bytes) (by decide)
  · cases h
    exact hasNewlineAtom_of_ne_symbol (h := .int) (by decide)
  · split at h
    · cases h
      exact hasNewlineAtom_of_ne_symbol (h := .bytes) (by decide)
    · cases h
  · split at h
    · cases h
      exact hasNewlineAtom_of_ne_symbol (h := .bytes) (by decide)
    · cases h
  · cases h
    exact hasNewlineAtom_symbol hx .symbol

theorem atomTree?_unbroken {t : Token} (ht : t.Clean) {x : Tree} (h : atomTree? t = some x) :
    x.hasNewlineAtom = false := by
  unfold atomTree? at h
  split at h
  · next hg =>
    split_ifs at h with hdot
    obtain ⟨el, hel, rfl⟩ := Option.map_eq_some_iff.mp h
    cases hr : atomOf t.text t.pos with
    | error e => simp [hr, Except.toOption] at hel
    | ok el' =>
      simp only [hr, Except.toOption, Option.some.injEq] at hel
      subst hel
      refine atomOf_unbroken (fun hn => ?_) hr
      have := ht.1 hg '\n' hn
      simp [isAtomChar, Text.isBlank] at this
  · obtain ⟨cs, -, rfl⟩ := Option.map_eq_some_iff.mp h
    exact hasNewlineAtom_of_ne_symbol (h := .string) (by decide)
  · cases h

namespace Shape

/-- No atom of the trees read so far is written with a final line break. -/
def Unbroken (s : Shape) : Prop :=
  (∀ x ∈ s.top.items, x.hasNewlineAtom = false) ∧
    ∀ f ∈ s.inner, ∀ x ∈ f.items, x.hasNewlineAtom = false

theorem closeTicks_unbroken : ∀ (fs : List Slot) (top : Slot),
    Unbroken ⟨top, fs⟩ → Unbroken ⟨(closeTicks fs top).2, (closeTicks fs top).1⟩
  | [], top, h => by simpa [closeTicks] using h
  | [f], top, ⟨htop, hfs⟩ => by
    rw [closeTicks]
    split
    · next x xs htick hitems =>
      refine ⟨?_, by simp⟩
      intro y hy
      rcases List.mem_cons.mp hy with rfl | hy
      · rw [hasNewlineAtom_quoteTree]
        exact hfs f (by simp) x (by simp [hitems])
      · exact htop y hy
    · exact ⟨htop, hfs⟩
  | f :: g :: gs, top, ⟨htop, hfs⟩ => by
    rw [closeTicks]
    split
    · next x xs htick hitems =>
      apply closeTicks_unbroken
      refine ⟨htop, ?_⟩
      intro g' hg' y hy
      rcases List.mem_cons.mp hg' with rfl | hg'
      · rcases List.mem_cons.mp hy with rfl | hy
        · rw [hasNewlineAtom_quoteTree]
          exact hfs f (by simp) x (by simp [hitems])
        · exact hfs g (by simp) y hy
      · exact hfs g' (by simp [hg']) y hy
    · exact ⟨htop, hfs⟩
termination_by fs => fs.length

theorem put_unbroken {s : Shape} (hs : s.Unbroken) {x : Tree} (hx : x.hasNewlineAtom = false) :
    (s.put x).Unbroken := by
  obtain ⟨htop, hin⟩ := hs
  unfold put
  apply closeTicks_unbroken
  unfold setCurrent current
  cases hinner : s.inner with
  | nil =>
    refine ⟨?_, by simp⟩
    intro y hy
    rcases List.mem_cons.mp hy with rfl | hy
    · exact hx
    · exact htop y hy
  | cons g gs =>
    rw [hinner] at hin
    refine ⟨htop, ?_⟩
    intro g' hg' y hy
    rcases List.mem_cons.mp hg' with rfl | hg'
    · rcases List.mem_cons.mp hy with rfl | hy
      · exact hx
      · exact hin g (by simp) y hy
    · exact hin g' (by simp [hg']) y hy

theorem closed_unbroken {f : Slot} (hf : ∀ x ∈ f.items, x.hasNewlineAtom = false) {x : Tree}
    (h : closed f = some x) : x.hasNewlineAtom = false := by
  unfold closed at h
  have hnil : Tree.nil.hasNewlineAtom = false := hasNewlineAtom_of_ne_symbol (h := .bytes) (by decide)
  split at h
  · split_ifs at h
    split at h
    · next tail before hitems =>
      cases h
      exact Tree.hasNewlineAtom_ofList (fun y hy => hf y (by simp [hitems, List.mem_reverse.mp hy]))
        (hf tail (by simp [hitems]))
    · cases h
      exact hnil
  · cases h
    exact Tree.hasNewlineAtom_ofList (fun y hy => hf y (List.mem_reverse.mp hy)) hnil

theorem feed_unbroken {s s' : Shape} (hs : s.Unbroken) {t : Token} (ht : t.Clean)
    (h : s.feed t = some s') : s'.Unbroken := by
  obtain ⟨htop, hin⟩ := hs
  unfold feed at h
  cases hg : t.group with
  | blank | remark =>
    simp only [hg, Option.some.injEq] at h
    exact h ▸ ⟨htop, hin⟩
  | opening | tick =>
    simp only [hg, Option.some.injEq] at h
    subst h
    refine ⟨htop, ?_⟩
    intro f hf y hy
    rcases List.mem_cons.mp hf with rfl | hf
    · simp at hy
    · exact hin f hf y hy
  | closing =>
    simp only [hg] at h
    split at h
    · cases h
    · next f fs hinner =>
      rw [hinner] at hin
      split_ifs at h
      obtain ⟨x, hx, hadd⟩ := Option.bind_eq_some_iff.mp h
      unfold add at hadd
      split_ifs at hadd
      cases hadd
      exact put_unbroken (s := ⟨s.top, fs⟩) ⟨htop, fun g hg' => hin g (List.mem_cons_of_mem f hg')⟩
        (closed_unbroken (hin f (by simp)) hx)
  | string =>
    simp only [hg] at h
    obtain ⟨x, hx, hadd⟩ := Option.bind_eq_some_iff.mp h
    unfold add at hadd
    split_ifs at hadd
    cases hadd
    exact put_unbroken ⟨htop, hin⟩ (atomTree?_unbroken ht hx)
  | atom =>
    simp only [hg] at h
    split_ifs at h with hdot hbad
    · -- the dot changes no part
      cases h
      unfold setCurrent current
      cases hinner : s.inner with
      | nil => simp [hinner] at hbad
      | cons g gs =>
        rw [hinner] at hin
        refine ⟨htop, ?_⟩
        intro g' hg' y hy
        rcases List.mem_cons.mp hg' with rfl | hg'
        · exact hin g (by simp) y hy
        · exact hin g' (by simp [hg']) y hy
    · obtain ⟨x, hx, hadd⟩ := Option.bind_eq_some_iff.mp h
      unfold add at hadd
      split_ifs at hadd
      cases hadd
      exact put_unbroken ⟨htop, hin⟩ (atomTree?_unbroken ht hx)

theorem feedAll_unbroken : ∀ {s s' : Shape} (ts : List Token), s.Unbroken →
    (∀ t ∈ ts, t.Clean) → s.feedAll ts = some s' → s'.Unbroken
  | s, s', [], hs, _, h => by
    cases h
    exact hs
  | s, s', t :: ts, hs, hts, h => by
    obtain ⟨s₁, h₁, h'⟩ := Option.bind_eq_some_iff.mp h
    exact feedAll_unbroken ts (feed_unbroken hs (hts t (by simp)) h₁)
      (fun u hu => hts u (by simp [hu])) h'

end Shape

/-- No atom that a text reads to is written with a final line break. -/
theorem readAll_unbroken {s : String} {rd : Reading} (h : readAll s = .ok rd) :
    ∀ n ∈ rd.items, n.tree.hasNewlineAtom = false := by
  obtain ⟨-, sh, hsh, hinner, -, hitems⟩ := (readAll_trees s (rd.items.map Noted.tree)).mp ⟨rd, h, rfl⟩
  have hun := Shape.feedAll_unbroken _ (by simp [Shape.Unbroken, Shape.start]) (scan_clean s) hsh
  intro n hn
  apply hun.1
  have hmem : n.tree ∈ sh.top.items.reverse := by
    rw [hitems]
    exact List.mem_map_of_mem hn
  exact List.mem_reverse.mp hmem

end SExpr

end PuzzleKit
