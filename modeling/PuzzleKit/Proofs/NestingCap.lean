import PuzzleKit.Script.Compile

/-!
# The nesting cap of the layout

Generation refuses a program nested deeper than the limit the compilation is given; the
indented layout refuses a part laid out deeper than a limit of its own, 500 levels, whatever
the compilation was given. A part laid out at depth `d` stands inside `d` lists, so a program
nested `n` lists deep is laid out at depths of at most `n` (`Style.block_spares_generation`).
When every depth the compilation's limit admits is at most 500, each program that passes
generation is therefore written with no fault of generation, indented or not and at any width
(`render_within_cap`). A limit above 500 lets through programs that the layout refuses.
-/

namespace PuzzleKit

/-- A computation that fails, if at all, with a fault of another kind than `k`. -/
def Spares (k : FailureKind) {α : Type} (x : Except Failure α) : Prop :=
  ∀ e, x = .error e → e.kind ≠ k

namespace Spares

variable {k : FailureKind} {α β : Type}

theorem of_ok {x : Except Failure α} {a : α} (h : x = .ok a) : Spares k x := by
  intro e he
  rw [h] at he
  cases he

theorem pure (a : α) : Spares k (Pure.pure a : Except Failure α) := of_ok rfl

theorem bind {x : Except Failure α} {f : α → Except Failure β} (hx : Spares k x)
    (hf : ∀ a, x = .ok a → Spares k (f a)) : Spares k (x >>= f) := by
  intro e he
  cases hxa : x with
  | error e' =>
    rw [hxa] at he
    cases he
    exact hx e hxa
  | ok a =>
    rw [hxa] at he
    exact hf a hxa e he

theorem map {x : Except Failure α} (f : α → β) (hx : Spares k x) : Spares k (f <$> x) := by
  rw [map_eq_pure_bind]
  exact hx.bind fun a _ => pure (f a)

theorem ok_of_forall {α : Type} {x : Except Failure α} (h : ∀ k, Spares k x) : ∃ a, x = .ok a := by
  cases x with
  | error e => exact absurd rfl (h e.kind e rfl)
  | ok a => exact ⟨a, rfl⟩

end Spares

namespace Bound

/-- Comparing with the limit fails, if at all, with a fault of another kind than `k`. -/
def SparesKind (k : FailureKind) (b : Bound) : Prop :=
  ∀ n, Spares k (b.exceededBy n) ∧ Spares k (b.admits n)

theorem spares_exceededBy (b : Bound) (n : Int) : Spares .generation (b.exceededBy n) := by
  unfold exceededBy
  split
  · intro e he
    cases he
    simp [incomparable, Failure.type]
  · exact Spares.of_ok rfl

theorem spares_admits (b : Bound) (n : Int) : Spares .generation (b.admits n) := by
  unfold admits
  split
  · intro e he
    cases he
    simp [incomparable, Failure.type]
  · exact Spares.of_ok rfl

theorem sparesKind_generation (b : Bound) : b.SparesKind .generation :=
  fun n => ⟨b.spares_exceededBy n, b.spares_admits n⟩

theorem sparesKind_whole (k : FailureKind) (i : Int) : (Bound.whole i).SparesKind k :=
  fun n => ⟨Spares.of_ok (exceededBy_whole i n), Spares.of_ok (admits_whole i n)⟩

end Bound

namespace Style

open Script (nestingDepth)

variable (st : Style) (sn : Remarks) {k : FailureKind}

theorem spares_fitsFlat (hw : st.width.SparesKind k) (hf : st.flatDepth.SparesKind k) (n : Noted)
    (indent : String) : Spares k (st.fitsFlat sn n indent) := by
  unfold fitsFlat
  split
  · exact Spares.pure _
  · refine (hw _).2.bind fun _ _ => ?_
    split
    · exact Spares.pure _
    · exact (hf _).1.bind fun _ _ => Spares.pure _

theorem spares_onHeadLine (hw : st.width.SparesKind k) (indent : String) :
    ∀ (j : Nat) (r : Noted), Spares k (st.onHeadLine sn indent j r)
  | 0, _ => Spares.of_ok rfl
  | j + 1, .cons f r _ => by
    unfold onHeadLine
    split
    · exact Spares.pure _
    · refine (hw _).1.bind fun _ _ => ?_
      split
      · exact Spares.pure _
      · exact (spares_onHeadLine hw indent j r).bind fun _ _ => Spares.pure _
  | _ + 1, .atom .. => Spares.of_ok rfl

theorem nestingDepth_cons (f r : Noted) (t : Tag) :
    nestingDepth (Noted.cons f r t).tree = max (nestingDepth f.tree + 1) (nestingDepth r.tree) :=
  rfl

variable {st} {m : Int} (hmax : st.maxDepth = .whole m)
include hmax

theorem exceededBy_depth {depth : Nat} (hd : (depth : Int) ≤ m) :
    st.maxDepth.exceededBy depth = .ok false := by
  rw [hmax, Bound.exceededBy_whole]
  simpa using hd

theorem spares_leaf (n : Noted) (indent : String) {depth : Nat} (hd : (depth : Int) ≤ m) :
    Spares k (st.leaf sn n indent depth) := by
  unfold leaf
  rw [exceededBy_depth hmax hd]
  exact Spares.of_ok rfl

mutual

theorem block_spares (hw : st.width.SparesKind k) (hf : st.flatDepth.SparesKind k) :
    ∀ (n : Noted) (indent : String) (depth : Nat),
    (depth : Int) + nestingDepth n.tree ≤ m → Spares k (st.block sn n indent depth)
  | .atom b h t, indent, depth, hd => by
    rw [block]
    · exact spares_leaf sn hmax _ indent (by simpa [Noted.tree, nestingDepth] using hd)
    all_goals simp
  | .cons f r t, indent, depth, hd => by
    rw [nestingDepth_cons] at hd
    have hf' : (depth : Int) + 1 + nestingDepth f.tree ≤ m := by omega
    have hr : (depth + 1 : Nat) ≤ m ∧ ((depth + 1 : Nat) : Int) + nestingDepth r.tree ≤ m + 1 := by
      constructor <;> push_cast <;> omega
    rw [block, exceededBy_depth hmax (by omega)]
    refine Spares.bind (Spares.of_ok rfl) fun b hb => ?_
    cases hb
    dsimp only [Bool.false_eq_true, if_false]
    refine (st.spares_fitsFlat sn hw hf _ indent).bind fun _ _ => ?_
    split
    · exact Spares.pure _
    · split
      · refine (st.spares_onHeadLine sn hw _ _ r).bind fun _ _ => ?_
        exact (chain_spares hw hf r _ (depth + 1) _ hr).bind fun _ _ => Spares.pure _
      · refine (block_spares hw hf f _ (depth + 1) (by push_cast; omega)).bind fun _ _ => ?_
        exact (chain_spares hw hf r _ (depth + 1) 0 hr).bind fun _ _ => Spares.pure _

theorem chain_spares (hw : st.width.SparesKind k) (hf : st.flatDepth.SparesKind k) :
    ∀ (n : Noted) (indent : String) (depth skip : Nat),
    (depth : Int) ≤ m ∧ (depth : Int) + nestingDepth n.tree ≤ m + 1 →
    Spares k (st.chain sn n indent depth skip)
  | .cons f r t, indent, depth, j + 1, hd => by
    rw [chain]
    rw [nestingDepth_cons] at hd
    exact chain_spares hw hf r indent depth j ⟨hd.1, by omega⟩
  | .cons f r t, indent, depth, 0, hd => by
    rw [chain]
    rw [nestingDepth_cons] at hd
    refine (block_spares hw hf f indent depth (by omega)).bind fun _ _ => ?_
    exact (chain_spares hw hf r indent depth 0 ⟨hd.1, by omega⟩).bind fun _ _ =>
      Spares.of_ok rfl
  | .atom b h t, indent, depth, skip, hd => by
    rw [chain]
    · split
      · exact Spares.of_ok rfl
      · exact (spares_leaf sn hmax _ indent hd.1).map _
    all_goals simp

end

variable (hw : st.width.SparesKind k) (hf : st.flatDepth.SparesKind k)
include hw hf

theorem write_spares (trailing : List String) (n : Noted) (hn : (nestingDepth n.tree : Int) ≤ m) :
    Spares k (st.write sn trailing n) := by
  unfold write
  split
  · exact Spares.of_ok rfl
  · exact (block_spares sn hmax hw hf n "" 0 (by simpa using hn)).map _

omit hw hf

theorem write_spares_generation (trailing : List String) (n : Noted)
    (hn : (nestingDepth n.tree : Int) ≤ m) : Spares .generation (st.write sn trailing n) :=
  write_spares sn hmax (Bound.sparesKind_generation _) (Bound.sparesKind_generation _) trailing n hn

/-- A part whose lists nest within the cap is written when its width and flat depth are whole
numbers. -/
theorem write_ok {w d : Int} (hw : st.width = .whole w) (hf : st.flatDepth = .whole d)
    (trailing : List String) (n : Noted) (hn : (nestingDepth n.tree : Int) ≤ m) :
    ∃ s, st.write sn trailing n = .ok s :=
  Spares.ok_of_forall fun k =>
    write_spares sn hmax (hw ▸ Bound.sparesKind_whole k w) (hf ▸ Bound.sparesKind_whole k d)
      trailing n hn

end Style

namespace Script

open Build

theorem forIn_each {ε γ : Type} {body : γ → PUnit → Except ε (ForInStep PUnit)}
    (hy : ∀ x r, body x PUnit.unit = .ok r → r = .yield PUnit.unit) :
    ∀ (xs : List γ) {u : PUnit}, forIn xs PUnit.unit body = .ok u →
      ∀ x ∈ xs, body x PUnit.unit = .ok (.yield PUnit.unit)
  | [], _, _ => by simp
  | y :: ys, u, h => by
    rw [List.forIn_cons] at h
    cases hb : body y PUnit.unit with
    | error e =>
      rw [hb] at h
      cases h
    | ok r =>
      have hr := hy y r hb
      subst hr
      rw [hb] at h
      intro x hx
      rcases List.mem_cons.mp hx with rfl | hx
      · exact hb
      · exact forIn_each hy ys h x hx

theorem generate_within_limit {a : Analysis} {request : String} {codec : AddressCodec}
    {maxDepth : Bound} {g : Generated} (h : generate a request codec maxDepth = .ok g) :
    ∀ p ∈ g.main :: g.actionMods.map (·.2), ∃ el p',
      Puzzle.build.run { p with remarks := g.remarks } = .ok el p' ∧
        maxDepth.exceededBy (nestingDepth el.tree) = .ok false := by
  unfold generate at h
  simp only [bind, Except.bind] at h
  split at h
  · cases h
  · split at h
    · cases h
    · split at h
      · cases h
      · next res _ hfor =>
        cases h
        intro p hp
        have hstep := forIn_each ?_ _ hfor p hp
        · split at hstep
          · next el p' hb =>
            refine ⟨el, p', hb, ?_⟩
            split at hstep
            · cases hstep
            · next v hv =>
              split at hstep
              · cases hstep
              · next hnv =>
                rw [hv, Bool.not_eq_true] at *
                rw [hnv]
          · cases hstep
        · intro x r hx
          split at hx
          · split at hx
            · cases hx
            · split at hx
              · cases hx
              · exact (Except.ok.inj hx).symm
          · cases hx

/-- The text of a program that builds: the built program, written with the remarks the build
left. -/
theorem runBuilder_serialize {p p' : Puzzle} {el : Noted} (hb : Puzzle.build.run p = .ok el p')
    (indented : Bool) (width : Bound) :
    runBuilder p (Puzzle.serialize indented width) =
      ({ indented, width } : Style).write p'.remarks [] el := by
  unfold runBuilder Puzzle.serialize
  rw [EStateM.run_bind, hb]
  dsimp only
  rw [EStateM.run_bind, show EStateM.run get p' = .ok p' p' from rfl]
  dsimp only
  generalize ({ indented, width } : Style).write p'.remarks [] el = w
  cases w <;> rfl

/-- When every depth the limit admits is within the layout's own cap of 500 levels, a program
that passes generation is written, indented or not and at any width, with no fault of
generation. -/
theorem render_within_cap {a : Analysis} {request : String} {codec : AddressCodec}
    {maxDepth : Bound} {g : Generated} (hgen : generate a request codec maxDepth = .ok g)
    (hcap : ∀ n : Nat, maxDepth.exceededBy n = .ok false → n ≤ 500)
    {p : Puzzle} (hp : p ∈ g.main :: g.actionMods.map (·.2)) (indented : Bool) (width : Bound) :
    Spares .generation (runBuilder { p with remarks := g.remarks } (Puzzle.serialize indented width)) := by
  obtain ⟨el, p', hb, hd⟩ := generate_within_limit hgen p hp
  have hn := hcap _ hd
  rw [runBuilder_serialize hb]
  exact Style.write_spares_generation p'.remarks rfl [] el (by omega)

/-- The text of a coin whose one action requires a positive amount and reserves it as a fee. -/
def tipText : String :=
  "coin Tip \x7b\n  action tip(uint64 amount) \x7b\n    require(amount > 0, \"no tip\");\n" ++
    "    reserveFee(amount);\n  \x7d\n\x7d\n"

theorem render_within_cap_tip : ∃ coin a g, parse tipText = .ok coin ∧ analyze coin = .ok a ∧
    generate a "auto" {} (.whole 500) = .ok g ∧
    (∀ n : Nat, (Bound.whole 500).exceededBy n = .ok false → n ≤ 500) ∧
    Spares .generation (runBuilder { g.main with remarks := g.remarks } (Puzzle.serialize true (.whole 80))) := by
  have hcap : ∀ n : Nat, (Bound.whole 500).exceededBy n = .ok false → n ≤ 500 := by
    intro n hn
    rw [Bound.exceededBy_whole] at hn
    have h500 := of_decide_eq_false (Except.ok.inj hn)
    omega
  have hok : ((parse tipText).bind fun coin => (analyze coin).bind fun a =>
      (generate a "auto" {} (.whole 500)).map fun _ => ()).toBool = true := by
    decide +kernel
  cases hp : parse tipText with
  | error e => rw [hp] at hok; cases hok
  | ok coin =>
    rw [hp] at hok
    change ((analyze coin).bind fun a => (generate a "auto" {} (.whole 500)).map fun _ => ()).toBool =
      true at hok
    cases ha : analyze coin with
    | error e => rw [ha] at hok; cases hok
    | ok a =>
      rw [ha] at hok
      change ((generate a "auto" {} (.whole 500)).map fun _ => ()).toBool = true at hok
      cases hg : generate a "auto" {} (.whole 500) with
      | error e => rw [hg] at hok; cases hok
      | ok g => exact ⟨coin, a, g, rfl, ha, hg, hcap, render_within_cap hg hcap List.mem_cons_self true _⟩

end Script

end PuzzleKit
