import PuzzleKit.Proofs.Ready

/-!
# The programs of a ready coin

Generation of a coin that is `Analysis.Ready` builds every program it makes as a sound puzzle
and fails, if at all, only at a nesting limit (`generate_sound`): the main program in direct
and dispatch mode (`single_tame`), with the dispatch over every action (`dispatchChain_tame`),
and in merkle mode the program of each action under its own name, then the main program that
checks a merkle proof (`merkle_tame`). Each action finds the signature that generation made of
it, since no two actions share a name (`find_signature`), and a direct solution carries one
slot for each name of that signature (`directNames_length`).
-/

namespace PuzzleKit.Script

open Build Build.Puzzle

/-- A result that satisfies `Q`, or a failure at a nesting limit. -/
def Within {α : Type} (Q : α → Prop) : Except Failure α → Prop
  | .ok a => Q a
  | .error e => NestingFault e

section Within

variable {α β γ : Type} {P Q : α → Prop}

theorem within_pure {a : α} (h : Q a) : Within Q (pure a) := h

theorem Within.mono {x : Except Failure α} (h : Within P x) (hPQ : ∀ a, P a → Q a) :
    Within Q x := by
  cases x with
  | ok a => exact hPQ a h
  | error e => exact h

theorem within_bind {R : β → Prop} {x : Except Failure α} {f : α → Except Failure β}
    (hx : Within P x) (hf : ∀ a, P a → Within R (f a)) : Within R (x >>= f) := by
  cases x with
  | ok a => exact hf a hx
  | error e => exact hx

theorem within_forIn {body : γ → PUnit → Except Failure (ForInStep PUnit)} :
    ∀ xs : List γ, (∀ x ∈ xs, Within (· = .yield PUnit.unit) (body x PUnit.unit)) →
      Within (fun _ => True) (forIn xs PUnit.unit body)
  | [], _ => trivial
  | x :: xs, h => by
    rw [List.forIn_cons]
    refine within_bind (h x List.mem_cons_self) fun r hr => ?_
    subst hr
    exact within_forIn xs fun y hy => h y (List.mem_cons_of_mem _ hy)

end Within

namespace Generate

variable {A : Analysis}

/-! ### Signatures and solution names -/

/-- A direct solution has one name for each name of the action's signature. -/
theorem directNames_length (info : ActionInfo) :
    (directNames info info.signature).length = info.signature.template.length := by
  have hle : info.action.params.length ≤ info.signature.template.length := by
    simp [Signature.template, ActionInfo.signature]
  unfold directNames
  rw [List.length_append, List.length_drop, List.length_map]
  omega

/-- Each action of a coin whose actions have distinct names finds, among the signatures of all
actions, its own. -/
theorem find_signature (hnames : (A.actions.map (·.action.name)).Nodup) {info : ActionInfo}
    (hinfo : info ∈ A.actions) :
    (A.actions.map ActionInfo.signature).find? (·.name == info.action.name) = some info.signature := by
  rw [List.find?_map]
  have hsome : (A.actions.find? ((·.name == info.action.name) ∘ ActionInfo.signature)).isSome :=
    List.find?_isSome.mpr ⟨info, hinfo, by simp [ActionInfo.signature]⟩
  obtain ⟨j, hj⟩ := Option.isSome_iff_exists.mp hsome
  have hjn : j.action.name = info.action.name := by
    simpa [ActionInfo.signature] using List.find?_some hj
  rw [hj, List.inj_on_of_nodup_map hnames (List.mem_of_find?_eq_some hj) hinfo hjn]
  rfl

theorem mem_of_action? {n : String} {info : ActionInfo} (h : A.action? n = some info) :
    info ∈ A.actions ∧ info.action.name = n :=
  ⟨List.mem_of_find?_eq_some h, by simpa using List.find?_some h⟩

theorem curried_nodup (hA : A.Ready) (b : Bool) :
    ((if b then ["MOD_HASH"] else []) ++ A.storage.map (·.vmName)).Nodup := by
  cases b
  · exact (List.nodup_cons.mp hA.curried).2
  · exact hA.curried

theorem readable_selfPuzzleHash (curried : List String) : (selfPuzzleHash curried).Readable := by
  simp [selfPuzzleHash]

theorem readable_syms (names : List String) : ∀ x ∈ names.map sym, x.Readable := by
  intro x hx
  obtain ⟨n, -, rfl⟩ := List.mem_map.mp hx
  exact readable_sym n

/-! ### The main program in direct and dispatch mode -/

/-- The dispatch of a ready coin over its actions is readable code: each action's body, read
from the arguments, under a test of its name, the default action in front. -/
theorem dispatchChain_tame (hA : A.Ready) {selfHash : Noted} (hself : selfHash.Readable) :
    Tame A Noted.Readable (dispatchChain (A.actions.map ActionInfo.signature) selfHash) := by
  unfold dispatchChain
  refine tame_bind tame_get fun g ⟨hg, _⟩ => ?_
  rw [hg]
  -- the loop keeps the chain of tests and the default action readable
  refine tame_bind (tame_forIn (fun st : Noted × Option Noted =>
      st.1.Readable ∧ ∀ d, st.2 = some d → d.Readable) _ _ (fun act _ st hst => ?_) _
      ⟨readable_failNode (some "unknown action"), fun _ h => by cases h⟩) fun st hst => ?_
  · split
    · rename_i info sig hinfo hsig
      obtain ⟨hmem, hname⟩ := mem_of_action? hinfo
      rw [← hname, find_signature hA.actionNames hmem] at hsig
      cases hsig
      have hslots : ∀ x ∈ (List.range info.signature.template.length).map (nth (sym "args")),
          x.Readable := by
        intro x hx
        obtain ⟨i, -, rfl⟩ := List.mem_map.mp hx
        exact readable_nth (readable_sym _) i
      refine tame_bind (actionBody_tame hA hmem (by simp) hslots hself) fun code hcode => ?_
      refine tame_bind (tame_remark hcode _) fun code hcode => ?_
      split
      · exact tame_pure ⟨_, rfl, hst.1, fun d hd => by cases hd; exact hcode⟩
      · exact tame_pure ⟨_, rfl, readable_ifNode (by simp) hcode hst.1, hst.2⟩
    · exact tame_pure ⟨_, rfl, hst⟩
  · dsimp only
    split
    · rename_i d hd
      exact tame_pure (readable_ifNode (by simp) (hst.2 d hd) hst.1)
    · exact tame_pure hst.1

theorem finish_tame (hA : A.Ready) {q : Puzzle} {code : Noted} (hq : q.Open)
    (hcode : code.Readable) :
    Tame A Puzzle.Sound (get >>= fun g : Gen => addFunctions { q with remarks := g.remarks } >>=
      fun p => onPuzzle p (Puzzle.returns (.tree code)) >>= fun r => keepRemarks r.2 >>=
        fun _ => pure r.2) := by
  refine tame_bind tame_get fun g _ => ?_
  refine tame_bind (addFunctions_tame hA (hq.withRemarks _)) fun q' hq' => ?_
  refine tame_bind (tame_onPuzzle (builds_returns hcode) hq') fun r hr => ?_
  exact tame_bind (tame_keepRemarks _) fun _ _ => tame_pure hr

/-- The main program of a ready coin in direct or dispatch mode is generated as a sound
puzzle. -/
theorem single_tame (hA : A.Ready) (mode : Mode) :
    Tame A Puzzle.Sound (single mode (A.actions.map ActionInfo.signature)) := by
  unfold single
  refine tame_bind tame_get fun g ⟨hg, _⟩ => ?_
  rw [hg]
  refine tame_bind tame_storageNames fun names hnames => ?_
  subst hnames
  refine tame_bind (newBuilder_tame hA (curried_nodup hA _) _ _) fun p hp => ?_
  refine tame_bind (tame_keepRemarks p) fun _ _ => ?_
  dsimp only
  split
  · -- direct mode: the solution names the action's parameters and extras
    rename_i info _ sig _ hacts hsigs
    have hmem : info ∈ A.actions := by rw [hacts]; exact List.mem_cons_self
    have hsig : sig = info.signature := by
      rw [hacts, List.map_cons] at hsigs
      exact (List.cons.inj hsigs).1.symm
    subst hsig
    refine tame_bind (tame_onPuzzle (builds_solutionParams (hA.actions info hmem).names) hp)
      fun r hr => ?_
    refine tame_bind (actionBody_tame hA hmem (by simp [directNames_length]) (readable_syms _)
      (readable_selfPuzzleHash _)) fun code hcode => ?_
    exact tame_bind (tame_pure (Q := fun r : Puzzle × Noted => r.1.Open ∧ r.2.Readable) ⟨hr, hcode⟩)
      fun r hr => finish_tame hA hr.1 hr.2
  · -- dispatch mode: the solution is the action's name and its arguments
    refine tame_bind (tame_onPuzzle (builds_bind (builds_solutionParams
      (show ["action"].Nodup by decide)) fun _ => builds_restParam "args") hp) fun r hr => ?_
    refine tame_bind (dispatchChain_tame hA (readable_selfPuzzleHash _)) fun code hcode => ?_
    exact tame_bind (tame_pure (Q := fun r : Puzzle × Noted => r.1.Open ∧ r.2.Readable) ⟨hr, hcode⟩)
      fun r hr => finish_tame hA hr.1 hr.2

/-! ### The programs of merkle mode -/

theorem readable_merkleCheck : merkleCheck.Readable := by simp [merkleCheck, merkleLeaf]

theorem tame_forIn_seen {γ β : Type} (I : List γ → β → Prop) {body : γ → β → GenM (ForInStep β)} :
    ∀ (xs pre : List γ) (b : β), (∀ pre x b, x ∈ xs → I pre b →
      Tame A (fun r => ∃ b', r = .yield b' ∧ I (pre ++ [x]) b') (body x b)) →
      I pre b → Tame A (I (pre ++ xs)) (forIn xs b body)
  | [], pre, b, _, hb => tame_pure (by simpa using hb)
  | x :: xs, pre, b, h, hb => by
    rw [List.forIn_cons]
    refine tame_bind (h pre x b List.mem_cons_self hb) fun r ⟨b', hr, hb'⟩ => ?_
    subst hr
    have hrest := tame_forIn_seen I xs (pre ++ [x]) b'
      (fun pre y b hy => h pre y b (List.mem_cons_of_mem _ hy)) hb'
    rwa [List.append_assoc, List.singleton_append] at hrest

/-- The programs of a ready coin in merkle mode are generated as sound puzzles: one for each
action, under the action's name and in the coin's order, and the main program. -/
theorem merkle_tame (hA : A.Ready) :
    Tame A (fun r => r.1.Sound ∧ (∀ m ∈ r.2, m.2.Sound) ∧
      r.2.map (·.1) = A.actions.map (·.action.name)) (merkle (A.actions.map ActionInfo.signature)) := by
  unfold merkle
  refine tame_bind tame_get fun g ⟨hg, _⟩ => ?_
  rw [hg]
  dsimp only
  refine tame_bind (tame_forIn_seen (fun pre (mods : List (String × Puzzle)) =>
      (∀ m ∈ mods, m.2.Sound) ∧ mods.map (·.1) = pre.map (·.1.action.name)) _ [] []
      (fun pre x mods hx hmods => ?_) ⟨fun _ h => (List.not_mem_nil h).elim, rfl⟩) fun mods hmods => ?_
  · have hmem : x.1 ∈ A.actions := List.fst_mem_of_mem_zipIdx hx
    have hr := hA.actions x.1 hmem
    refine tame_bind (tame_modify fun _ => ⟨rfl, rfl⟩) fun _ _ => ?_
    rw [find_signature hA.actionNames hmem]
    dsimp only
    refine tame_bind tame_storageNames fun names hnames => ?_
    subst hnames
    refine tame_bind (newBuilder_tame hA (List.nodup_cons.mp hA.curried).2 _ _) fun p hp => ?_
    refine tame_bind (tame_keepRemarks p) fun _ _ => ?_
    have hnames : ((if A.hasState = true then ["self_puzzle_hash"] else []) ++
        directNames x.1 x.1.signature).Nodup := by
      split
      · exact List.nodup_cons.mpr ⟨hr.selfHash, hr.names⟩
      · exact hr.names
    refine tame_bind (tame_onPuzzle (builds_solutionParams hnames) hp) fun q hq => ?_
    refine tame_bind (actionBody_tame hA hmem (by split <;> simp [directNames_length])
      (readable_syms _) (by split <;> simp)) fun code hcode => ?_
    refine tame_bind tame_get fun g' _ => ?_
    refine tame_bind (addFunctions_tame hA (hq.withRemarks _)) fun q' hq' => ?_
    refine tame_bind (tame_onPuzzle (builds_returns hcode) hq') fun r hr' => ?_
    refine tame_bind (tame_keepRemarks _) fun _ _ => tame_pure ⟨_, rfl, fun m hm => ?_, ?_⟩
    · rcases List.mem_append.mp hm with hm | hm
      · exact hmods.1 m hm
      · rw [List.mem_singleton.mp hm]
        exact hr'
    · simp [hmods.2]
  refine tame_bind tame_get fun g' _ => ?_
  refine tame_bind (tame_onPuzzle (P := fun p => p.Fresh ∧ p.curried = []) (Q := Puzzle.Sound) ?_
    ⟨fresh_start _ [] _, rfl⟩) fun r hr => ?_
  · refine builds_bind (builds_curriedParams (by split <;> decide)) fun _ => ?_
    refine builds_bind (builds_solutionParams (by decide)) fun _ => ?_
    refine builds_bind (builds_defun _ _ readable_proofWalk _) fun _ => ?_
    exact builds_returns (readable_ifNode readable_merkleCheck (by split <;> simp [readable_selfPuzzleHash])
      (readable_failNode _))
  refine tame_bind (tame_keepRemarks _) fun _ _ => tame_pure ⟨hr, hmods.1, ?_⟩
  rw [hmods.2, List.nil_append]
  simpa only [List.map_map, Function.comp_def] using
    congrArg (List.map (·.action.name)) (List.zipIdx_map_fst 0 A.actions)

end Generate

theorem within_of_tame {A : Analysis} {α : Type} {Q : α → Prop} {x : GenM α} (h : Generate.Tame A Q x)
    {g : Gen} (hg : g.analysis = A) (hd : g.maxDepth.Numeric) :
    Within (fun r => Q r.1) (x.run g) := by
  have h' := h g hg hd
  cases hr : x.run g with
  | ok r => rw [hr] at h'; exact h'.1
  | error e => rw [hr] at h'; exact h'

/-- What generating the programs of a coin gives: the main program and, in merkle mode, the
program of each action under a name of its own, each of them sound. -/
structure Generated.Sound (g : Generated) : Prop where
  main : g.main.Sound
  mods : ∀ m ∈ g.actionMods, m.2.Sound
  names : (g.actionMods.map (·.1)).Nodup

/-- A ready coin's programs are generated in the mode a request picks, each of them sound;
generation fails only where a program nests deeper than the limit. -/
theorem generate_sound {A : Analysis} (hA : A.Ready) {request : String} {mode : Mode}
    (hmode : pickMode A request = .ok mode) (codec : AddressCodec) {maxDepth : Bound}
    (hd : maxDepth.Numeric) : Within Generated.Sound (generate A request codec maxDepth) := by
  unfold generate
  refine within_bind (P := (· = mode)) (by rw [hmode]; rfl) fun m hm => ?_
  subst hm
  dsimp only
  refine within_bind (within_of_tame (Q := Generated.Sound) ?_ rfl hd) fun r hr => ?_
  · split
    · refine Generate.tame_bind (Generate.merkle_tame hA) fun r hr => ?_
      refine Generate.tame_bind Generate.tame_get fun _ _ => Generate.tame_pure ⟨hr.1, hr.2.1, ?_⟩
      dsimp only
      rw [hr.2.2]
      exact hA.actionNames
    · refine Generate.tame_bind (Generate.single_tame hA m) fun p hp => ?_
      exact Generate.tame_bind Generate.tame_get fun _ _ =>
        Generate.tame_pure ⟨hp, fun _ h => (List.not_mem_nil h).elim, List.nodup_nil⟩
  -- each program builds, and is refused only when it nests deeper than the limit
  refine within_bind (within_forIn _ fun p hp => ?_) fun _ _ => within_pure hr
  have hsound : p.Sound := by
    rcases List.mem_cons.mp hp with rfl | hp
    · exact hr.main
    · obtain ⟨m, hm, rfl⟩ := List.mem_map.mp hp
      exact hr.mods m hm
  obtain ⟨el, rm, hb⟩ := build_sound (hsound.withRemarks r.1.remarks)
  obtain ⟨b, hb'⟩ := Bound.exceededBy_ok hd (nestingDepth el.tree)
  rw [hb]
  dsimp only
  rw [hb']
  cases b
  · rfl
  · exact NestingFault.program _ _

end PuzzleKit.Script
