import PuzzleKit.Proofs.ReadText
import PuzzleKit.Proofs.NestingCap
import PuzzleKit.Proofs.FieldCodec
import PuzzleKit.SExpr.Format

/-!
# Reformatting keeps the program and its remarks

`formatSource` reads a text and writes each part it holds in the indented layout, with the
remarks the reader kept for it, then the trailing remarks. Its text reads back as the same
program, and each remark of the source is written exactly once
(`format_keeps_program_and_remarks`), whenever the source nests within the layout's cap and two
kinds of remark are absent. A remark kept under the shared empty list is written wherever that
list is written, once per `()` (`format_repeats_shared_remark`), and the layout writes no remark
that stands on the rest of a list, after a dot or inside a quoted list
(`format_drops_rest_remark`); `Noted.placed` says a part has none of the latter.

The proof joins the layout's lines part after part (`parts_read`): their tokens are those of
the compact texts of the parts, which the reader takes back one after another from the
outermost level (`feedAll_items`), and their remark lines are those of the parts.
-/

namespace PuzzleKit

theorem Remarks.get_eq_nil {rm : Remarks} (h : rm.all = []) (k : Key) : rm.get k = [] := by
  unfold Remarks.get
  cases hf : rm.entries.find? (·.1 == k) with
  | none => rfl
  | some e =>
    have he : e.2 ⊆ rm.all := fun c hc =>
      List.mem_flatMap.mpr ⟨e, List.mem_of_find?_eq_some hf, hc⟩
    simpa [h] using he

namespace Noted

theorem notesIn_of_all {rm : Remarks} (h : rm.all = []) (n : Noted) : n.notesIn rm = n.tag.kept := by
  unfold notesIn
  cases n.tag with
  | own ns => rfl
  | shared k => exact rm.get_eq_nil h k

mutual

/-- Whether every remark inside a part stands where the layout writes it: on a part that is
written, that is not on the pair of a list's rest, nor on an empty atom that ends a list. -/
def placed : Noted → Bool
  | .atom .. => true
  | .cons f r _ => f.placed && restPlaced r

/-- The same of the rest of a list after an element. -/
def restPlaced : Noted → Bool
  | .cons f r t => t.kept.isEmpty && f.placed && restPlaced r
  | .atom b _ t => !b.isEmpty || t.kept.isEmpty

end

variable {rm : Remarks} (hrm : rm.all = [])
include hrm

mutual

theorem shownNotes_eq : ∀ n : Noted, n.placed = true → n.shownNotes rm = n.ownNotes
  | .atom b h t, _ => notesIn_of_all hrm _
  | .cons f r t, hp => by
    simp only [placed, Bool.and_eq_true] at hp
    rw [shownNotes, notesIn_of_all hrm, shownNotes_eq f hp.1, chainShown_eq r hp.2]
    rfl

theorem chainShown_eq : ∀ n : Noted, n.restPlaced = true → chainShown rm n = n.ownNotes
  | .cons f r t, hp => by
    simp only [restPlaced, Bool.and_eq_true, List.isEmpty_iff] at hp
    rw [chainShown, shownNotes_eq f hp.1.2, chainShown_eq r hp.2, ownNotes, hp.1.1,
      List.nil_append]
  | .atom b h t, hp => by
    rw [chainShown, notesIn_of_all hrm]
    by_cases hb : b.isEmpty
    · simp only [restPlaced, hb, Bool.not_true, Bool.false_or, List.isEmpty_iff] at hp
      simp [hb, ownNotes, hp]
    · simp [hb, ownNotes, tag]

end

theorem remarkBreaks_of_own : ∀ n : Noted, (∀ c ∈ n.ownNotes, '\n' ∉ c.toList) →
    n.remarkBreaks rm = false
  | .atom b h t, hn => by
    unfold remarkBreaks
    simp only [notesIn_of_all hrm, Bool.or_false, List.any_eq_false]
    intro c hc hnl
    exact hn c hc (List.contains_iff_mem.mp hnl)
  | .cons f r t, hn => by
    unfold remarkBreaks
    simp only [ownNotes, List.mem_append] at hn
    simp only [notesIn_of_all hrm, Bool.or_eq_false_iff, List.any_eq_false]
    refine ⟨fun c hc hnl => hn c (.inl (.inl hc)) (List.contains_iff_mem.mp hnl),
      remarkBreaks_of_own f fun c hc => hn c (.inl (.inr hc)),
      remarkBreaks_of_own r fun c hc => hn c (.inr hc)⟩

end Noted

namespace SExpr

open Style (block_reads)

theorem formatSource_eq {t : String} {rd : Reading} (h : readAll t = .ok rd) :
    formatSource t = (rd.items.mapM fun n => ({ indented := true } : Style).write rd.remarks [] n).map
      fun parts => "\n".intercalate (parts ++ rd.trailing.map ("; " ++ ·)) := by
  unfold formatSource
  rw [h]
  rfl

theorem intercalate_append_congr {A B : List String} (h : "\n".intercalate A = "\n".intercalate B)
    (hAB : A = [] ↔ B = []) (T : List String) :
    "\n".intercalate (A ++ T) = "\n".intercalate (B ++ T) := by
  by_cases hA : A = []
  · rw [hA, hAB.mp hA]
  · have hB : B ≠ [] := fun hB => hA (hAB.mpr hB)
    by_cases hT : T = []
    · simpa [hT] using h
    · rw [intercalate_append hA hT, intercalate_append hB hT, h]

section Parts

variable {st : Style} (hind : st.indented = true) (hkw : st.keywords = false) {rm : Remarks}
include hind hkw

/-- The parts written one after another are the lines of each part's layout, joined: they scan
to the tokens of the parts' compact texts, and their remark lines are the parts' remarks. -/
theorem parts_read {items : List Noted} {parts : List String}
    (hbr : ∀ n ∈ items, n.remarkBreaks rm = false)
    (hparts : List.Forall₂ (fun n s => st.write rm [] n = .ok s) items parts) :
    ∃ L, "\n".intercalate parts = "\n".intercalate L ∧ (parts = [] ↔ L = []) ∧
      ((items = [] ∧ L = []) ∨ LinesRead L (items.flatMap fun n => treeKinds st.headText n.tree)
        ((items.flatMap (Noted.shownNotes rm)).map reread)) := by
  induction hparts with
  | nil => exact ⟨[], rfl, by simp, .inl ⟨rfl, rfl⟩⟩
  | @cons n s ns ss hw hrest ih =>
    simp only [Style.write, hind, Bool.not_true, Bool.false_eq_true, if_false, List.map_nil,
      List.append_nil] at hw
    cases hb : st.block rm n "" 0 with
    | error e => simp [hb, Except.map] at hw
    | ok Ln =>
      simp only [hb, Except.map, Except.ok.injEq] at hw
      have hLn := block_reads st rm n "" 0 Ln (by simp) (hbr n (by simp))
        (fun h => by simp [hkw] at h) hb
      obtain ⟨L, hL, hnil, hrest'⟩ := ih (fun m hm => hbr m (by simp [hm]))
      refine ⟨Ln ++ L, ?_, by simp [hLn.1], .inr ?_⟩
      · rcases hrest' with ⟨rfl, rfl⟩ | hLr
        · cases hrest
          simp [hw]
        · -- both runs of lines are there: one line break joins them
          have hss : ss ≠ [] := fun h => hLr.1 (hnil.mp h)
          obtain ⟨s', ss', rfl⟩ := List.exists_cons_of_ne_nil hss
          rw [String.intercalate_cons_cons, hL, intercalate_append hLn.1 hLr.1, hw]
      · rcases hrest' with ⟨rfl, rfl⟩ | hLr
        · simpa using hLn
        · simpa [List.flatMap_cons, List.map_append] using hLn.append hLr

end Parts

theorem scans_nil (s : Char → Bool) : Scans s [] [] :=
  fun _ p _ => ⟨[], p, rfl, rfl, rfl⟩

theorem Scans.remarkTexts_eq {s : Char → Bool} {x : String} {ks : List (Group × String)}
    (h : Scans s x.toList ks) : remarkTexts x = remarksOf ks := by
  obtain ⟨ts, p', hk, hsolid, -⟩ := h [] Pos.start (by simp)
  have hend : scanFrom [] .idle p' = ([], none) := rfl
  simp only [List.append_nil, hend, solid, List.filter_nil] at hsolid
  have hblank : ∀ us : List Token,
      remarksOf ((us.filter fun t => t.group != .blank).map Token.kind) = remarksOf (us.map Token.kind) := by
    intro us
    induction us with
    | nil => rfl
    | cons u us ih =>
      by_cases hu : u.group = .blank
      · simp [hu, remarksOf, Token.kind] at ih ⊢
        exact ih
      · simp only [List.filter_cons, hu, bne_iff_ne, ne_eq, not_false_eq_true, if_true,
          List.map_cons]
        rw [← List.singleton_append, remarksOf_append, ih, ← remarksOf_append]
        rfl
  rw [remarkTexts, ← hblank, ← hk, ← hsolid]
  rfl

theorem format_scans {rd : Reading} {parts : List String}
    (hbr : ∀ n ∈ rd.items, n.remarkBreaks rd.remarks = false)
    (htrail : ∀ c ∈ rd.trailing, '\n' ∉ c.toList)
    (hparts : List.Forall₂ (fun n s => ({ indented := true } : Style).write rd.remarks [] n = .ok s)
      rd.items parts) :
    ∃ ks, Scans (fun _ => false) ("\n".intercalate (parts ++ rd.trailing.map ("; " ++ ·))).toList ks ∧
      visible ks = rd.items.flatMap (fun n => treeKinds renderAtom n.tree) ∧
      remarksOf ks = (rd.items.flatMap (Noted.shownNotes rd.remarks) ++ rd.trailing).map reread := by
  obtain ⟨L, hL, hnil, hread⟩ := parts_read rfl rfl hbr hparts
  rw [intercalate_append_congr hL hnil]
  have hunrem : ∀ items : List Noted,
      visible (items.flatMap fun n => treeKinds renderAtom n.tree) =
        items.flatMap fun n => treeKinds renderAtom n.tree := by
    intro items
    apply visible_of_unremarked
    intro k hk
    obtain ⟨n, -, hk⟩ := List.mem_flatMap.mp hk
    exact (treeKinds_unremarked unremarked_renderAtom n.tree).1 k hk
  rcases hread with ⟨hitems, rfl⟩ | hLr
  · -- no part: the trailing remarks alone, or nothing at all
    rw [hitems]
    by_cases htr : rd.trailing = []
    · rw [htr]
      exact ⟨[], scans_nil _, rfl, rfl⟩
    · obtain ⟨ks, hks, hvis, hrem⟩ := remarkLines_scan rd.trailing htr htrail
      exact ⟨ks, by simpa using hks.mono (fun _ h => by cases h), by simpa using hvis,
        by simpa using hrem⟩
  · obtain ⟨ks, hks, hvis, hrem⟩ := LinesRead.trailing hLr htrail
    refine ⟨ks, hks, ?_, by rw [hrem, List.map_append]⟩
    rw [hvis]
    exact hunrem rd.items

theorem reads_treeKinds {t : Tree} (hn : t.hasNewlineAtom = false) :
    Reads (treeKinds renderAtom t) t := by
  obtain ⟨-, ks, hscan, hread⟩ := (textReads_of_hasNewlineAtom t hn).1
  have hks : kindsOf (Tree.renderWith renderAtom t) = ks := hscan.kindsOf_eq
  have htree : kindsOf (Tree.renderWith renderAtom t) = treeKinds renderAtom t :=
    (scans_renderWith unremarked_renderAtom t).1.2.kindsOf_eq
  rw [← htree, hks]
  exact hread

/-- Tokens of the compact texts of trees, one after another, fed to a reader at its outermost
level, add a part for each tree, the same program, in order. -/
theorem feedAll_items : ∀ (xs : List Tree) (r : Reader) (ts : List Token),
    (∀ x ∈ xs, x.hasNewlineAtom = false) → r.Plain → r.inner = [] → r.top.dot = none →
    ts.map Token.kind = xs.flatMap (treeKinds renderAtom) →
    ∃ (els : List Noted) (r' : Reader), r.feedAll ts = .ok r' ∧ r'.inner = [] ∧
      r'.top = { r.top with items := els.reverse ++ r.top.items } ∧
      List.Forall₂ (fun e x => e.tree.same x = true) els xs
  | [], r, ts, _, _, _, _, hk => by
    rw [List.map_eq_nil_iff.mp hk]
    exact ⟨[], r, rfl, by assumption, rfl, .nil⟩
  | x :: xs, r, ts, hn, hp, hi, hd, hk => by
    rw [List.flatMap_cons] at hk
    obtain ⟨ts₁, ts₂, rfl, hk₁, hk₂⟩ := List.map_eq_append_iff.mp hk
    have hopen : r.Open := by
      intro d hd'
      simp [Reader.current, hi, hd] at hd'
    obtain ⟨el, rm, hsame, hfeed⟩ := reads_treeKinds (hn x (by simp)) r ts₁ ts₂ hp hopen hk₁
    have htop : (r.push el rm).top = { r.top with items := el :: r.top.items } := by
      simp [Reader.push, Reader.setCurrent, Reader.current, hi]
    have hinner : (r.push el rm).inner = [] := by
      rw [Reader.inner_push, hi]
    obtain ⟨els, r', hr', hi', htop', hrest⟩ := feedAll_items xs (r.push el rm) ts₂
      (fun y hy => hn y (by simp [hy])) (Reader.plain_push hp el rm) hinner (by rw [htop]; exact hd)
      hk₂
    refine ⟨el :: els, r', by rw [hfeed]; exact hr', hi', ?_, .cons hsame hrest⟩
    rw [htop', htop]
    simp

theorem parseMany_of_kinds {out : String} {xs : List Tree} (hn : ∀ x ∈ xs, x.hasNewlineAtom = false)
    (hscan : (scan out).2 = none)
    (hk : ((scan out).1.filter Token.significant).map Token.kind = xs.flatMap (treeKinds renderAtom)) :
    ∃ ys, parseMany out = .ok ys ∧ List.Forall₂ (fun y x => y.same x = true) ys xs := by
  -- any tokens of those kinds read alike, and tokens made from the kinds read to the trees
  let us : List Token := (xs.flatMap (treeKinds renderAtom)).map fun k => ⟨k.1, k.2, Pos.start⟩
  have hus : us.map Token.kind = xs.flatMap (treeKinds renderAtom) := by
    simp [us, Token.kind, Function.comp_def]
  obtain ⟨els, r', hfeed, hinner, htop, hsame⟩ :=
    feedAll_items xs Reader.initial us hn ⟨rfl, by simp [Reader.initial]⟩ rfl rfl hus
  have hshape : Shape.start.feedAll (scan out).1 = some r'.shape := by
    rw [Shape.feedAll_significant, Shape.feedAll_congr _ (hk.trans hus.symm),
      ← show Reader.initial.shape = Shape.start from rfl, ← Reader.shape_feedAll, hfeed]
    rfl
  obtain ⟨rd, hrd, hmap⟩ := (readAll_trees out (els.map Noted.tree)).mpr
    ⟨hscan, r'.shape, hshape, by simp [Reader.shape, hinner],
      by simp [Reader.shape, Frame.slot, htop, Reader.initial],
      by simp [Reader.shape, Frame.slot, htop, Reader.initial, List.map_reverse]⟩
  refine ⟨els.map Noted.tree, (parseMany_eq_ok_iff _ _).mpr ⟨rd, hrd, hmap⟩, ?_⟩
  exact List.forall₂_map_left_iff.mpr hsame

/-- Reformatting a text keeps its program and its remarks. When the text reads, its lists nest
no deeper than the layout's cap of 500, no remark is kept under the shared empty list and every
remark stands where the layout writes it, `formatSource` gives a text that reads as the same
parts, the same program each, and whose remarks are those of the source, each once. -/
theorem format_keeps_program_and_remarks {t : String} {rd : Reading} (hrd : readAll t = .ok rd)
    (hdepth : ∀ n ∈ rd.items, Script.nestingDepth n.tree ≤ 500) (hshared : rd.remarks.count = 0)
    (hplaced : ∀ n ∈ rd.items, n.placed = true) :
    ∃ out, formatSource t = .ok out ∧
      (∃ ys, parseMany out = .ok ys ∧
        List.Forall₂ (fun y x => y.same x = true) ys (rd.items.map Noted.tree)) ∧
      (remarkTexts out).Perm (remarkTexts t) := by
  have hall : rd.remarks.all = [] := by
    apply List.eq_nil_of_length_eq_zero
    rw [← Remarks.count_eq_length]
    exact hshared
  -- every remark the reader kept is trimmed text with no line break
  have hkeep := readAll_keeps_remarks hrd
  have hread : ∀ c ∈ rd.items.flatMap Noted.ownNotes ++ rd.remarks.all ++ rd.trailing,
      reread c = c ∧ '\n' ∉ c.toList := by
    intro c hc
    obtain ⟨x, rfl, hx⟩ := mem_remarkTexts (hkeep.subset hc)
    exact ⟨reread_trim x, fun hn => hx (Text.mem_of_mem_trim hn)⟩
  have hbr : ∀ n ∈ rd.items, n.remarkBreaks rd.remarks = false := fun n hn =>
    Noted.remarkBreaks_of_own hall n fun c hc =>
      (hread c (List.mem_append_left _ (List.mem_append_left _ (List.mem_flatMap.mpr ⟨n, hn, hc⟩)))).2
  have htrail : ∀ c ∈ rd.trailing, '\n' ∉ c.toList := fun c hc =>
    (hread c (List.mem_append_right _ hc)).2
  obtain ⟨parts, hparts, hw⟩ := FieldType.mapM_eq_ok_forall₂
    (P := fun n s => ({ indented := true } : Style).write rd.remarks [] n = .ok s) rd.items
    fun n hn => by
      obtain ⟨s, hs⟩ := Style.write_ok rd.remarks
        (show ({ indented := true } : Style).maxDepth = .whole 500 from rfl) rfl rfl [] n
        (by have := hdepth n hn; omega)
      exact ⟨s, hs, hs⟩
  have hout : formatSource t = .ok ("\n".intercalate (parts ++ rd.trailing.map ("; " ++ ·))) := by
    rw [formatSource_eq hrd, hparts]
    rfl
  obtain ⟨ks, hks, hvis, hrem⟩ := format_scans hbr htrail hw
  obtain ⟨hscan, hsig⟩ := hks.scan
  refine ⟨_, hout, ?_, ?_⟩
  · -- the parts read back
    refine parseMany_of_kinds (fun x hx => ?_) hscan ?_
    · obtain ⟨n, hn, rfl⟩ := List.mem_map.mp hx
      exact readAll_unbroken hrd n hn
    · rw [hsig, hvis, List.flatMap_map]
  · -- each remark is written once, as the text the reader kept
    rw [Scans.remarkTexts_eq hks, hrem]
    have hshown : rd.items.flatMap (Noted.shownNotes rd.remarks) = rd.items.flatMap Noted.ownNotes :=
      List.flatMap_congr fun n hn => Noted.shownNotes_eq hall n (hplaced n hn)
    have hfix : (rd.items.flatMap Noted.ownNotes ++ rd.trailing).map reread =
        rd.items.flatMap Noted.ownNotes ++ rd.trailing := by
      conv_rhs => rw [← List.map_id (rd.items.flatMap Noted.ownNotes ++ rd.trailing)]
      apply List.map_congr_left
      intro c hc
      rw [List.mem_append] at hc
      rcases hc with hc | hc
      · exact (hread c (List.mem_append_left _ (List.mem_append_left _ hc))).1
      · exact (hread c (List.mem_append_right _ hc)).1
    rw [hshown, hfix]
    simpa [hall] using hkeep

/-- A source with a remark before a list, one inside it and a trailing one. -/
theorem format_keeps_program_and_remarks_remarked :
    ∃ rd, readAll "; one\n(a ; two\n b)\n; three" = .ok rd ∧
      (∀ n ∈ rd.items, Script.nestingDepth n.tree ≤ 500) ∧ rd.remarks.count = 0 ∧
      (∀ n ∈ rd.items, n.placed = true) ∧
      ∃ out, formatSource "; one\n(a ; two\n b)\n; three" = .ok out ∧
        (∃ ys, parseMany out = .ok ys ∧
          List.Forall₂ (fun y x => y.same x = true) ys (rd.items.map Noted.tree)) ∧
        (remarkTexts out).Perm (remarkTexts "; one\n(a ; two\n b)\n; three") := by
  have hcheck : ((readAll "; one\n(a ; two\n b)\n; three").toOption.map fun rd =>
      rd.items.all (fun n => decide (Script.nestingDepth n.tree ≤ 500) && n.placed) &&
        rd.remarks.count == 0) = some true := by
    decide +kernel
  cases hrd : readAll "; one\n(a ; two\n b)\n; three" with
  | error e =>
    rw [hrd] at hcheck
    cases hcheck
  | ok rd =>
    rw [hrd] at hcheck
    simp only [Except.toOption, Option.map_some, Option.some.injEq, Bool.and_eq_true,
      List.all_eq_true, decide_eq_true_eq, beq_iff_eq] at hcheck
    obtain ⟨hitems, hcount⟩ := hcheck
    have hdepth : ∀ n ∈ rd.items, Script.nestingDepth n.tree ≤ 500 := fun n hn => (hitems n hn).1
    have hplaced : ∀ n ∈ rd.items, n.placed = true := fun n hn => (hitems n hn).2
    exact ⟨rd, rfl, hdepth, hcount, hplaced,
      format_keeps_program_and_remarks hrd hdepth hcount hplaced⟩

/-- A remark before `()` is kept under the shared empty list, and written again at every `()`. -/
theorem format_repeats_shared_remark :
    remarkTexts "; c\n() ()" = ["c"] ∧
      (formatSource "; c\n() ()").toOption = some "; c\n()\n; c\n()" ∧
      remarkTexts "; c\n()\n; c\n()" = ["c", "c"] := by
  decide +kernel

/-- A remark before the closing parenthesis of a quoted list stands on the rest of the pair the
tick reads as, and is not written. -/
theorem format_drops_rest_remark :
    remarkTexts "'(a ; c\n)" = ["c"] ∧ (formatSource "'(a ; c\n)").toOption = some "(q a)" := by
  decide +kernel

end SExpr

end PuzzleKit
