import PuzzleKit.Proofs.RemarkView
import PuzzleKit.Proofs.Reading
import PuzzleKit.Proofs.Merkle.Memo
import PuzzleKit.Build.Puzzle

/-!
# What building a body shows

Building a body attaches the remarks written before each step to the code that step makes. The
tree of the code does not depend on the remark store at all (`body_sameTree`): from any two
stores, building gives code of one tree, or fails the same way.

What the code shows does depend on the store, through the parts that stand in several places.
A step that ends a body hands its remarks to the value the body ends with, which is one object
for every build, so each build attaches them to it once more. When no such step carries remarks
(`Body.quiet`), building attaches remarks only to code it has just made, and a part that both
arms of a branch go on with gets a joint key not handed out before. Then building only adds new
keys to the store, and the code shows as `Body.shown` says, whatever joints were handed out
before (`body_shows`).
-/

namespace PuzzleKit

namespace Noted

@[simp] theorem view_view (rm rm' : Remarks) : ∀ n : Noted, (n.view rm).view rm' = n.view rm
  | .atom _ _ _ => rfl
  | .cons f r _ => by simp only [view, view_view rm rm' f, view_view rm rm' r]; rfl

theorem tree_share (rm : Remarks) (n : Noted) : (n.share rm).1.tree = n.tree := by
  unfold share
  split
  · exact tree_withTag _ n
  · rfl

theorem below_nil (j : Nat) : Noted.nil.Below j := trivial

theorem below_ofList {j : Nat} {items : List Noted} {tail : Noted} (h : ∀ x ∈ items, x.Below j)
    (ht : tail.Below j) : (Noted.ofList items tail).Below j := by
  induction items with
  | nil => exact ht
  | cons x xs ih =>
    exact ⟨trivial, h x List.mem_cons_self, ih fun y hy => h y (List.mem_cons_of_mem _ hy)⟩

theorem below_withTag {j : Nat} {t : Tag} (ht : t.Below j) :
    ∀ {n : Noted}, n.Below j → (n.withTag t).Below j
  | .atom _ _ _, _ => ht
  | .cons _ _ _, ⟨_, hf, hr⟩ => ⟨ht, hf, hr⟩

end Noted

/-- A host value whose code carries only keys handed out before the joint count `j`; a value
that holds no code has none. -/
def Value.Below (j : Nat) : Value → Prop
  | .tree t => t.Below j
  | _ => True

namespace Build

theorem below_call {j : Nat} (op : String) {args : List Noted} (h : ∀ x ∈ args, x.Below j) :
    (call op args).Below j :=
  Noted.below_ofList (fun x hx => by
    rcases List.mem_cons.mp hx with rfl | hx
    · exact trivial
    · exact h x hx) (Noted.below_nil j)

theorem below_failNodeOf {j : Nat} {msg : Value} {f : Noted} (h : failNodeOf msg = .ok f) :
    f.Below j := by
  unfold failNodeOf at h
  split at h
  · cases h
    exact below_call "x" (fun _ hx => absurd hx List.not_mem_nil)
  · cases ht : msg.utf8Text with
    | error e => simp [ht, bind, Except.bind] at h
    | ok m =>
      simp only [ht, bind, Except.bind, pure, Except.pure, Except.ok.injEq] at h
      subst h
      exact Noted.below_ofList (by simp [sym, str, Noted.Below, Tag.Below]) (Noted.below_nil j)

theorem below_asElement {j : Nat} {v : Value} {n : Noted} (hv : v.Below j)
    (h : asElement v = .ok n) : n.Below j := by
  cases v with
  | tree t =>
    cases h
    exact hv
  | bool b =>
    cases h
    cases b <;> trivial
  | none | int _ | bytes _ | str _ =>
    cases h
    trivial
  | float _ | list _ | tuple _ | dict _ => cases h

theorem view_call (rm : Remarks) (op : String) (args : List Noted) :
    (call op args).view rm = Noted.ofList (sym op :: args.map (Noted.view rm)) (Noted.nil.view rm) := by
  rw [call, Noted.view_ofList, List.map_cons]
  rfl

/-! ### The tree of the code -/

/-- Two buildings give code of one tree, or fail the same way, from any two stores. -/
def SameTree (x y : Building Noted) : Prop :=
  ∀ rm₁ rm₂, (answerOf (x.run rm₁)).map Noted.tree = (answerOf (y.run rm₂)).map Noted.tree

theorem sameTree_pure {a b : Noted} (h : a.tree = b.tree) : SameTree (pure a) (pure b) :=
  fun _ _ => by simp [answerOf, Except.map, h, EStateM.run_pure]

theorem sameTree_bind {x y : Building Noted} {f g : Noted → Building Noted} (hxy : SameTree x y)
    (hfg : ∀ a b, a.tree = b.tree → SameTree (f a) (g b)) : SameTree (x >>= f) (y >>= g) := by
  intro rm₁ rm₂
  have h := hxy rm₁ rm₂
  rw [EStateM.run_bind, EStateM.run_bind]
  cases hx : x.run rm₁ with
  | ok a s₁ =>
    cases hy : y.run rm₂ with
    | ok b s₂ =>
      rw [hx, hy] at h
      exact hfg a b (by simpa [answerOf, Except.map] using h) s₁ s₂
    | error e s₂ =>
      rw [hx, hy] at h
      simp [answerOf, Except.map] at h
  | error e s₁ =>
    cases hy : y.run rm₂ with
    | ok b s₂ =>
      rw [hx, hy] at h
      simp [answerOf, Except.map] at h
    | error e' s₂ =>
      rw [hx, hy] at h
      simpa [answerOf, Except.map] using h

theorem sameTree_lift (r : Except Failure Noted) : SameTree (Building.lift r) (Building.lift r) := by
  intro rm₁ rm₂
  cases r <;> rfl

theorem sameTree_attach {a b : Noted} (h : a.tree = b.tree) (ns : List String) :
    SameTree (Building.attach a ns) (Building.attach b ns) := fun rm₁ rm₂ => by
  show Except.map Noted.tree (.ok (a.attach rm₁ ns).1) = Except.map Noted.tree (.ok (b.attach rm₂ ns).1)
  simp [Except.map, Noted.tree_attach, h]

theorem sameTree_share {a b : Noted} (h : a.tree = b.tree) :
    SameTree (Building.share a) (Building.share b) := fun rm₁ rm₂ => by
  show Except.map Noted.tree (.ok (a.share rm₁).1) = Except.map Noted.tree (.ok (b.share rm₂).1)
  simp [Except.map, Noted.tree_share, h]

theorem tree_call_congr (op : String) {xs ys : List Noted} (h : xs.map Noted.tree = ys.map Noted.tree) :
    (call op xs).tree = (call op ys).tree := by
  simp only [call, Noted.tree_ofList, List.map_cons, h]

mutual

/-- Code built of one tree gives code of one tree, whatever the remark stores. -/
theorem body_sameTree : ∀ (b : Body) {n₁ n₂ : Noted}, n₁.tree = n₂.tree →
    SameTree (b.build n₁) (b.build n₂)
  | .mk steps tail, n₁, n₂, h => by
    rw [Body.build, Body.build]
    exact steps_sameTree steps (by cases tail <;> simp [h])

theorem steps_sameTree : ∀ (steps : List (List String × Step)) {n₁ n₂ : Noted},
    n₁.tree = n₂.tree → SameTree (buildSteps steps n₁) (buildSteps steps n₂)
  | [], _, _, h => sameTree_pure h
  | (notes, s) :: rest, _, _, h => by
    rw [buildSteps, buildSteps]
    exact sameTree_bind (steps_sameTree rest h) fun _ _ hr =>
      sameTree_bind (step_sameTree s hr) fun _ _ hr' => sameTree_attach hr' notes

theorem step_sameTree : ∀ (s : Step) {n₁ n₂ : Noted}, n₁.tree = n₂.tree →
    SameTree (s.build n₁) (s.build n₂)
  | .cond c, _, _, h => by
    rw [Step.build, Step.build]
    exact sameTree_pure (tree_call_congr "c" (by simp [h]))
  | .require c msg, _, _, h => by
    rw [Step.build, Step.build]
    exact sameTree_bind (sameTree_lift _) fun _ _ hf =>
      sameTree_pure (tree_call_congr "if" (by simp [h, hf]))
  | .branch c yes no, _, _, h => by
    rw [Step.build, Step.build]
    exact sameTree_bind (sameTree_share h) fun _ _ hn =>
      sameTree_bind (body_sameTree yes hn) fun _ _ ht =>
        sameTree_bind (arm_sameTree no hn) fun _ _ he =>
          sameTree_pure (tree_call_congr "if" (by simp [ht, he]))
  | .stop, _, _, h => by
    rw [Step.build, Step.build]
    exact sameTree_pure h

theorem arm_sameTree : ∀ (o : Option Body) {n₁ n₂ : Noted}, n₁.tree = n₂.tree →
    SameTree (buildArm o n₁) (buildArm o n₂)
  | some b, _, _, h => by
    rw [buildArm, buildArm]
    exact body_sameTree b h
  | none, _, _, h => by
    rw [buildArm, buildArm]
    exact sameTree_pure h

end

/-! ### Quiet bodies and what they show -/

/-- Whether a step ends a body: a return or a failure. -/
def Step.isStop : Step → Bool
  | .stop => true
  | _ => false

mutual

/-- Whether no step that ends a body, in it or in the arms of its branches, carries remarks. -/
def Body.quiet : Body → Bool
  | .mk steps _ => stepsQuiet steps

/-- Whether no step that ends a body, among these steps or in their arms, carries remarks. -/
def stepsQuiet : List (List String × Step) → Bool
  | [] => true
  | (notes, s) :: rest => (notes.isEmpty || !s.isStop) && s.quiet && stepsQuiet rest

/-- Whether the arms of a branch are quiet; the other steps have none. -/
def Step.quiet : Step → Bool
  | .branch _ yes no => yes.quiet && armQuiet no
  | _ => true

/-- Whether an optional arm is quiet. -/
def armQuiet : Option Body → Bool
  | some b => b.quiet
  | none => true

end

mutual

/-- Every key that the code a body keeps carries was handed out before the joint count `j`. -/
def Body.Below (j : Nat) : Body → Prop
  | .mk steps tail => stepsBelow j steps ∧ ∀ t ∈ tail, t.Below j

/-- Every key that the code of these steps carries was handed out before `j`. -/
def stepsBelow (j : Nat) : List (List String × Step) → Prop
  | [] => True
  | (_, s) :: rest => s.Below j ∧ stepsBelow j rest

/-- Every key that the code a step keeps carries was handed out before `j`. -/
def Step.Below (j : Nat) : Step → Prop
  | .cond c => c.Below j
  | .require c _ => c.Below j
  | .branch c yes no => c.Below j ∧ yes.Below j ∧ armBelow j no
  | .stop => True

/-- Every key that the code of an optional arm carries was handed out before `j`. -/
def armBelow (j : Nat) : Option Body → Prop
  | some b => b.Below j
  | none => True

end

@[simp] theorem stepsQuiet_append (xs ys : List (List String × Step)) :
    stepsQuiet (xs ++ ys) = (stepsQuiet xs && stepsQuiet ys) := by
  induction xs with
  | nil => rfl
  | cons x xs ih =>
    obtain ⟨notes, s⟩ := x
    simp only [List.cons_append, stepsQuiet, ih, Bool.and_assoc]

theorem stepsBelow_append {j : Nat} (xs ys : List (List String × Step)) :
    stepsBelow j (xs ++ ys) ↔ stepsBelow j xs ∧ stepsBelow j ys := by
  induction xs with
  | nil => simp [stepsBelow]
  | cons x xs ih =>
    obtain ⟨notes, s⟩ := x
    simp only [List.cons_append, stepsBelow, ih, and_assoc]

mutual

theorem Body.below_mono {j j' : Nat} (hj : j ≤ j') : ∀ {b : Body}, b.Below j → b.Below j'
  | .mk _ _, ⟨hs, ht⟩ => ⟨stepsBelow_mono hj hs, fun t h => (ht t h).mono hj⟩

theorem stepsBelow_mono {j j' : Nat} (hj : j ≤ j') :
    ∀ {steps : List (List String × Step)}, stepsBelow j steps → stepsBelow j' steps
  | [], _ => trivial
  | (_, _) :: _, ⟨hs, hr⟩ => ⟨Step.below_mono hj hs, stepsBelow_mono hj hr⟩

theorem Step.below_mono {j j' : Nat} (hj : j ≤ j') : ∀ {s : Step}, s.Below j → s.Below j'
  | .cond _, h => Noted.Below.mono hj h
  | .require _ _, h => Noted.Below.mono hj h
  | .branch _ _ _, ⟨hc, hy, hn⟩ =>
    ⟨Noted.Below.mono hj hc, Body.below_mono hj hy, armBelow_mono hj hn⟩
  | .stop, _ => trivial

theorem armBelow_mono {j j' : Nat} (hj : j ≤ j') : ∀ {o : Option Body}, armBelow j o → armBelow j' o
  | some _, h => Body.below_mono hj h
  | none, _ => trivial

end

mutual

/-- The code a body builds, as it shows against the store `rm`, going on with the code `next`:
every part carries the remarks it shows, and the remarks before a step go to the code the step
makes. -/
def Body.shown (rm : Remarks) : Body → Noted → Except Failure Noted
  | .mk steps tail, next => stepsShown rm steps ((tail.map (Noted.view rm)).getD next)

/-- The code steps build, as it shows against `rm`, going on with `next`. -/
def stepsShown (rm : Remarks) : List (List String × Step) → Noted → Except Failure Noted
  | [], next => .ok next
  | (notes, s) :: rest, next => do
    let r ← stepsShown rm rest next
    let r ← s.shown rm r
    return (r.attach {} notes).1

/-- The code a step builds, as it shows against `rm`, going on with `next`. -/
def Step.shown (rm : Remarks) : Step → Noted → Except Failure Noted
  | .cond c, next => .ok ((consCondition c next).view rm)
  | .require c msg, next => do return (ifNode c next (← failNodeOf msg)).view rm
  | .branch c yes no, next => do
    let t ← yes.shown rm next
    let e ← armShown rm no next
    return (ifNode c t e).view rm
  | .stop, next => .ok next

/-- The code an optional arm builds, as it shows against `rm`. -/
def armShown (rm : Remarks) : Option Body → Noted → Except Failure Noted
  | some b, next => b.shown rm next
  | none, next => .ok next

end

/-- Building `x` from the store `rm` adds only new keys to it and keeps it fresh, and shows as
`e`: it gives code whose keys were all handed out and that shows as the code of `e` does, or
it fails as `e` fails. -/
def ShowsAs (x : Building Noted) (rm : Remarks) (e : Except Failure Noted) : Prop :=
  match x.run rm with
  | .ok n rm' => rm.Extends rm' ∧ rm'.Fresh ∧ n.Below rm'.joints ∧ e = .ok (n.view rm')
  | .error err rm' => rm.Extends rm' ∧ rm'.Fresh ∧ e = .error err

theorem showsAs_pure {n : Noted} {rm : Remarks} (hF : rm.Fresh) (hn : n.Below rm.joints) :
    ShowsAs (pure n) rm (.ok (n.view rm)) :=
  ⟨.refl rm, hF, hn, rfl⟩

theorem showsAs_bind {x : Building Noted} {f : Noted → Building Noted} {rm : Remarks}
    {e : Except Failure Noted} {g : Noted → Except Failure Noted} (hx : ShowsAs x rm e)
    (hf : ∀ n rm', x.run rm = .ok n rm' → rm.Extends rm' → rm'.Fresh → n.Below rm'.joints →
      ShowsAs (f n) rm' (g (n.view rm'))) :
    ShowsAs (x >>= f) rm (e >>= g) := by
  unfold ShowsAs at hx ⊢
  rw [EStateM.run_bind]
  cases hrun : x.run rm with
  | ok n rm' =>
    rw [hrun] at hx
    obtain ⟨h₁, hF₁, hn₁, rfl⟩ := hx
    have hk := hf n rm' hrun h₁ hF₁ hn₁
    unfold ShowsAs at hk
    dsimp only
    cases hfr : (f n).run rm' with
    | ok m rm'' =>
      rw [hfr] at hk
      obtain ⟨h₂, hF₂, hm, he⟩ := hk
      exact ⟨h₁.trans h₂, hF₂, hm, he⟩
    | error err rm'' =>
      rw [hfr] at hk
      obtain ⟨h₂, hF₂, he⟩ := hk
      exact ⟨h₁.trans h₂, hF₂, he⟩
  | error err rm' =>
    rw [hrun] at hx
    obtain ⟨h₁, hF₁, rfl⟩ := hx
    exact ⟨h₁, hF₁, rfl⟩

theorem showsAs_bind_ok {x : Building Noted} {f : Noted → Building Noted} {rm : Remarks}
    {v : Noted} {e : Except Failure Noted} (hx : ShowsAs x rm (.ok v))
    (hf : ∀ n rm', x.run rm = .ok n rm' → rm.Extends rm' → rm'.Fresh → n.Below rm'.joints →
      n.view rm' = v → ShowsAs (f n) rm' e) :
    ShowsAs (x >>= f) rm e :=
  showsAs_bind (g := fun _ => e) hx fun n rm' hrun h₁ hF₁ hn₁ => by
    have hv : n.view rm' = v := by
      unfold ShowsAs at hx
      rw [hrun] at hx
      exact (Except.ok.inj hx.2.2.2).symm
    exact hf n rm' hrun h₁ hF₁ hn₁ hv

theorem showsAs_share {n : Noted} {rm : Remarks} (hF : rm.Fresh) (hn : n.Below rm.joints) :
    ShowsAs (Building.share n) rm (.ok (n.view rm)) := by
  show rm.Extends (n.share rm).2 ∧ (n.share rm).2.Fresh ∧ (n.share rm).1.Below (n.share rm).2.joints ∧
    Except.ok (n.view rm) = .ok ((n.share rm).1.view (n.share rm).2)
  unfold Noted.share
  split
  · next ns htag =>
    dsimp only
    generalize hrm' : ({ rm with joints := rm.joints + 1 } : Remarks).attach (.joint rm.joints) ns = rm'
    have hjoints : rm'.joints = rm.joints + 1 := by rw [← hrm', Remarks.joints_attach]
    have hget : ∀ k, rm'.get k = if k = .joint rm.joints then ns else rm.get k := fun k => by
      rw [← hrm', Remarks.get_attach]
      split
      · have h0 : ({ rm with joints := rm.joints + 1 } : Remarks).get (.joint rm.joints) = [] :=
          hF rm.joints (Nat.le_refl _)
        rw [h0, List.nil_append]
      · rfl
    have hext : rm.Extends rm' := by
      refine ⟨by omega, fun k hk => ?_⟩
      rw [hget, if_neg]
      rintro rfl
      exact Nat.lt_irrefl _ hk
    have hfresh : rm'.Fresh := fun i hi => by
      rw [hget, if_neg, hF i (by omega)]
      intro h
      injection h with h
      omega
    refine ⟨hext, hfresh, ?_, ?_⟩
    · have hk : Tag.Below rm'.joints (.shared (.joint rm.joints)) := show rm.joints < rm'.joints by omega
      exact Noted.below_withTag hk (hn.mono (by omega))
    · cases n with
      | atom b h t =>
        simp only [Noted.tag] at htag
        subst htag
        simp [Noted.withTag, Noted.view, Noted.notesIn, Noted.tag, hget]
      | cons f r t =>
        simp only [Noted.tag] at htag
        subst htag
        obtain ⟨-, hf, hr⟩ := hn
        simp [Noted.withTag, Noted.view, Noted.notesIn, Noted.tag, hget,
          Noted.view_extends hext hf, Noted.view_extends hext hr]
  · exact ⟨.refl rm, hF, hn, rfl⟩

theorem showsAs_attach {n : Noted} {rm : Remarks} (hF : rm.Fresh) (hn : n.Below rm.joints)
    {notes : List String} (h : notes = [] ∨ ∃ ns, n.tag = .own ns) :
    ShowsAs (Building.attach n notes) rm (.ok ((n.view rm).attach {} notes).1) := by
  show rm.Extends (n.attach rm notes).2 ∧ (n.attach rm notes).2.Fresh ∧
    (n.attach rm notes).1.Below (n.attach rm notes).2.joints ∧
    Except.ok ((n.view rm).attach {} notes).1 = .ok ((n.attach rm notes).1.view (n.attach rm notes).2)
  cases n with
  | atom b hi t =>
    cases t with
    | own ns => exact ⟨.refl rm, hF, trivial, rfl⟩
    | shared k =>
      obtain rfl | ⟨ns, hns⟩ := h
      · simp only [Noted.attach, Noted.tag, Remarks.attach_nil]
        exact ⟨.refl rm, hF, hn, by simp [Noted.view, Noted.withTag]⟩
      · cases hns
  | cons f r t =>
    obtain ⟨ht, hf, hr⟩ := hn
    cases t with
    | own ns => exact ⟨.refl rm, hF, ⟨trivial, hf, hr⟩, rfl⟩
    | shared k =>
      obtain rfl | ⟨ns, hns⟩ := h
      · simp only [Noted.attach, Noted.tag, Remarks.attach_nil]
        exact ⟨.refl rm, hF, ⟨ht, hf, hr⟩,
          by simp [Noted.view, Noted.withTag]⟩
      · cases hns

/-- Code whose building, when it gives code, gives code that keeps its remarks with it. -/
def KeepsOwn (x : Building Noted) : Prop :=
  ∀ rm n rm', x.run rm = .ok n rm' → ∃ ns, n.tag = .own ns

theorem keepsOwn_bind {α : Type} {x : Building α} {f : α → Building Noted}
    (hf : ∀ a, KeepsOwn (f a)) : KeepsOwn (x >>= f) := by
  intro rm n rm' h
  rw [EStateM.run_bind] at h
  cases hx : x.run rm with
  | ok a s =>
    rw [hx] at h
    exact hf a s n rm' h
  | error e s =>
    rw [hx] at h
    cases h

theorem keepsOwn_call (op : String) (args : List Noted) : KeepsOwn (pure (call op args)) :=
  fun _ _ _ h => by
    cases h
    exact ⟨[], rfl⟩

theorem keepsOwn_build : ∀ (s : Step) (next : Noted), s.isStop = false → KeepsOwn (s.build next)
  | .cond c, next, _ => by
    rw [Step.build]
    exact keepsOwn_call "c" [c, next]
  | .require c msg, next, _ => by
    rw [Step.build]
    exact keepsOwn_bind fun f => keepsOwn_call "if" [c, next, f]
  | .branch c yes no, next, _ => by
    rw [Step.build]
    exact keepsOwn_bind fun _ => keepsOwn_bind fun t => keepsOwn_bind fun e =>
      keepsOwn_call "if" [c, t, e]
  | .stop, _, h => absurd h (by decide)

section Shows

variable (r₀ : Remarks)

mutual

/-- A quiet body whose code carries only keys handed out by `r₀`, built from a fresh extension
of `r₀`, adds only new keys to the store and shows as `Body.shown r₀` says. -/
theorem body_shows : ∀ (b : Body) (next : Noted) (rm : Remarks), b.quiet = true →
    b.Below r₀.joints → r₀.Extends rm → rm.Fresh → next.Below rm.joints →
    ShowsAs (b.build next) rm (b.shown r₀ (next.view rm))
  | .mk steps tail, next, rm, hq, ⟨hs, ht⟩, h₀, hF, hn => by
    have htail : (tail.getD next).view rm = (tail.map (Noted.view r₀)).getD (next.view rm) := by
      cases tail with
      | none => rfl
      | some t => exact Noted.view_extends h₀ (ht t rfl)
    have hb : (tail.getD next).Below rm.joints := by
      cases tail with
      | none => exact hn
      | some t => exact (ht t rfl).mono h₀.1
    rw [Body.build, Body.shown, ← htail]
    exact steps_shows steps (tail.getD next) rm hq hs h₀ hF hb

theorem steps_shows : ∀ (steps : List (List String × Step)) (next : Noted) (rm : Remarks),
    stepsQuiet steps = true → stepsBelow r₀.joints steps → r₀.Extends rm → rm.Fresh →
    next.Below rm.joints → ShowsAs (buildSteps steps next) rm (stepsShown r₀ steps (next.view rm))
  | [], next, rm, _, _, _, hF, hn => by
    rw [buildSteps, stepsShown]
    exact showsAs_pure hF hn
  | (notes, s) :: rest, next, rm, hq, ⟨hs, hrest⟩, h₀, hF, hn => by
    simp only [stepsQuiet, Bool.and_eq_true, Bool.or_eq_true, List.isEmpty_iff,
      Bool.not_eq_true'] at hq
    obtain ⟨⟨hnotes, hsq⟩, hrq⟩ := hq
    rw [buildSteps, stepsShown]
    refine showsAs_bind (steps_shows rest next rm hrq hrest h₀ hF hn) fun r rm₁ _ h₁ hF₁ hr => ?_
    refine showsAs_bind (step_shows s r rm₁ hsq hs (h₀.trans h₁) hF₁ hr)
      fun r' rm₂ hrun _ hF₂ hr' => ?_
    -- the remarks before the step go to the code it made, unless it ended the body
    refine showsAs_attach hF₂ hr' ?_
    rcases hnotes with hnil | hstop
    · exact .inl hnil
    · exact .inr (keepsOwn_build s r hstop rm₁ r' rm₂ hrun)

theorem step_shows : ∀ (s : Step) (next : Noted) (rm : Remarks), s.quiet = true →
    s.Below r₀.joints → r₀.Extends rm → rm.Fresh → next.Below rm.joints →
    ShowsAs (s.build next) rm (s.shown r₀ (next.view rm))
  | .cond c, next, rm, _, hc, h₀, hF, hn => by
    rw [Step.build, Step.shown]
    have hv : (consCondition c next).view rm = (consCondition c (next.view rm)).view r₀ := by
      simp only [consCondition, view_call, List.map_cons, List.map_nil, Noted.view_view,
        Noted.view_extends h₀ hc, Noted.view_extends h₀ (Noted.below_nil r₀.joints)]
    rw [← hv]
    exact showsAs_pure hF (below_call "c" (by simpa using And.intro (hc.mono h₀.1) hn))
  | .require c msg, next, rm, _, hc, h₀, hF, hn => by
    rw [Step.build, Step.shown]
    cases hf : failNodeOf msg with
    | error e => exact ⟨.refl rm, hF, rfl⟩
    | ok f =>
      have hv : (ifNode c next f).view rm = (ifNode c (next.view rm) f).view r₀ := by
        simp only [ifNode, view_call, List.map_cons, List.map_nil, Noted.view_view,
          Noted.view_extends h₀ hc, Noted.view_extends h₀ (below_failNodeOf hf),
          Noted.view_extends h₀ (Noted.below_nil r₀.joints)]
      show ShowsAs (pure (ifNode c next f)) rm (.ok ((ifNode c (next.view rm) f).view r₀))
      rw [← hv]
      exact showsAs_pure hF
        (below_call "if" (by simpa using ⟨hc.mono h₀.1, hn, below_failNodeOf hf⟩))
  | .branch c yes no, next, rm, hq, ⟨hc, hyes, hno⟩, h₀, hF, hn => by
    simp only [Step.quiet, Bool.and_eq_true] at hq
    rw [Step.build, Step.shown]
    -- both arms go on with one shared part, which shows as `next` did
    refine showsAs_bind_ok (showsAs_share hF hn) fun next' rm₁ _ h₁ hF₁ hn₁ hv₁ => ?_
    rw [← hv₁]
    refine showsAs_bind (body_shows yes next' rm₁ hq.1 hyes (h₀.trans h₁) hF₁ hn₁)
      fun t rm₂ _ h₂ hF₂ ht => ?_
    rw [← Noted.view_extends h₂ hn₁]
    have h₀₂ := (h₀.trans h₁).trans h₂
    refine showsAs_bind (arm_shows no next' rm₂ hq.2 hno h₀₂ hF₂ (hn₁.mono h₂.1))
      fun e rm₃ _ h₃ hF₃ he => ?_
    have hv : (ifNode c t e).view rm₃ = (ifNode c (t.view rm₂) (e.view rm₃)).view r₀ := by
      simp only [ifNode, view_call, List.map_cons, List.map_nil, Noted.view_view,
        Noted.view_extends (h₀₂.trans h₃) hc, Noted.view_extends h₃ ht,
        Noted.view_extends (h₀₂.trans h₃) (Noted.below_nil r₀.joints)]
    show ShowsAs (pure (ifNode c t e)) rm₃ (.ok ((ifNode c (t.view rm₂) (e.view rm₃)).view r₀))
    rw [← hv]
    exact showsAs_pure hF₃ (below_call "if"
      (by simpa using ⟨hc.mono (h₀₂.trans h₃).1, ht.mono h₃.1, he⟩))
  | .stop, next, rm, _, _, _, hF, hn => by
    rw [Step.build, Step.shown]
    exact showsAs_pure hF hn

theorem arm_shows : ∀ (o : Option Body) (next : Noted) (rm : Remarks), armQuiet o = true →
    armBelow r₀.joints o → r₀.Extends rm → rm.Fresh → next.Below rm.joints →
    ShowsAs (buildArm o next) rm (armShown r₀ o (next.view rm))
  | some b, next, rm, hq, hb, h₀, hF, hn => by
    rw [buildArm, armShown]
    exact body_shows b next rm hq hb h₀ hF hn
  | none, next, rm, _, _, _, hF, hn => by
    rw [buildArm, armShown]
    exact showsAs_pure hF hn

end

end Shows

end Build

end PuzzleKit
