import PuzzleKit.Proofs.Lowered
import PuzzleKit.Proofs.Built
import Mathlib

/-!
# Generating the programs of a ready coin

What code generation needs of a checked coin is `Analysis.Ready`: the body of each action
resolves its names in the keys its spend binds (`ActionInfo.keys`), its access addresses
resolve with no keys bound, the names of its direct solution are distinct, the names of the
functions resolve in their parameters, the curried names are distinct, and the include files
may be used. From a ready coin every program is generated as a sound puzzle, which builds; the
only failures on the way are the nesting limits.
-/

namespace PuzzleKit.Script

open Build Build.Puzzle

/-- The keys the body of an action may read: its parameters, `msg.value` when its spend
carries the amount, and the state fields `fields` in a stateful action. -/
def ActionInfo.keys (info : ActionInfo) (fields : List String) : List String :=
  info.action.params.map (·.name) ++
    ((if info.usesAmount || info.stateful then ["msg.value"] else []) ++
      (if info.stateful then fields.map ("state." ++ ·) else []))

/-- What generating an action needs of its check. -/
structure ActionInfo.Ready (A : Analysis) (info : ActionInfo) : Prop where
  body : Block.Resolves A.globals (info.keys (A.coin.stateVars.map (·.name))) info.action.body
  access : ∀ e ∈ info.access, e.Resolves A.globals []
  names : (Generate.directNames info info.signature).Nodup
  selfHash : "self_puzzle_hash" ∉ Generate.directNames info info.signature

/-- What generating the programs of a coin needs of its check. -/
structure Analysis.Ready (A : Analysis) : Prop where
  actions : ∀ info ∈ A.actions, info.Ready A
  actionNames : (A.actions.map (·.action.name)).Nodup
  functions : ∀ f ∈ A.coin.functions, Block.Resolves A.globals (f.params.map (·.name)) f.body
  curried : ("MOD_HASH" :: A.storage.map (·.vmName)).Nodup
  includes : ∀ i ∈ A.includes, includeAllowed i = true

theorem Env.binds_of_mem {env : Env} {K : List String} (h : ∀ k ∈ K, k ∈ env.map (·.1)) :
    env.Binds K := by
  intro k hk
  obtain ⟨⟨k', v⟩, hmem, rfl⟩ := List.mem_map.mp (h k hk)
  exact List.lookup_isSome_iff.mpr ⟨(k', v), hmem, beq_self_eq_true k'⟩

namespace Generate

variable {A : Analysis}

/-! ### Steps of generation around the builder -/

theorem tame_onPuzzle {α : Type} {P Q : Puzzle → Prop} {m : PuzzleM α} (h : Builds P Q m)
    {p : Puzzle} (hp : P p) : Tame A (fun r => Q r.2) (onPuzzle p m) := by
  intro g hA _
  obtain ⟨a, p', hm, hq⟩ := h p hp
  simp only [onPuzzle, hm]
  exact ⟨hq, hA, rfl⟩

theorem tame_keepRemarks (p : Puzzle) : Tame A (fun _ => True) (keepRemarks p) :=
  tame_modify fun _ => ⟨rfl, rfl⟩

theorem tame_remark {n : Noted} (hn : n.Readable) (text : String) :
    Tame A Noted.Readable (remark n text) := by
  intro g hA _
  exact ⟨(Noted.readable_attach _ _ _).mpr hn, hA, rfl⟩

theorem tame_storageNames : Tame A (· = A.storage.map (·.vmName)) storageNames := by
  intro g hA _
  refine ⟨?_, hA, rfl⟩
  show g.analysis.storage.map (·.vmName) = _
  rw [hA]

theorem tame_forIn {γ β : Type} (I : β → Prop) (body : γ → β → GenM (ForInStep β)) :
    ∀ (xs : List γ), (∀ x ∈ xs, ∀ b, I b → Tame A (fun r => ∃ b', r = .yield b' ∧ I b') (body x b)) →
      ∀ b, I b → Tame A I (forIn xs b body)
  | [], _, b, hb => tame_pure hb
  | x :: xs, h, b, hb => by
    rw [List.forIn_cons]
    refine tame_bind (h x List.mem_cons_self b hb) fun r ⟨b', hr, hb'⟩ => ?_
    subst hr
    exact tame_forIn I body xs (fun y hy => h y (List.mem_cons_of_mem _ hy)) b' hb'

/-! ### A builder of the coin's programs -/

/-- A new builder has the curried parameters, the coin's include files and its constants, and
no solution parameter yet. -/
theorem newBuilder_tame (hA : A.Ready) {curried : List String} (hnd : curried.Nodup)
    (name : String) (path : List Nat) : Tame A Fresh (newBuilder name path curried) := by
  unfold newBuilder
  refine tame_bind tame_get fun g ⟨hg, _⟩ => ?_
  have hinc : ∀ i ∈ g.analysis.includes, Builds Fresh Fresh (addInclude (.str i)) :=
    fun i hi => builds_addInclude (hA.includes i (hg ▸ hi))
  refine tame_bind (@tame_onPuzzle _ _ (fun p => p.Fresh ∧ p.curried = []) _ _ ?_ _
    ⟨fresh_start _ _ _, rfl⟩) fun r hr => tame_pure hr
  refine builds_bind (builds_curriedParams hnd) fun _ => ?_
  refine builds_bind (builds_forIn Fresh _ _ fun i hi => yield_of_builds (hinc i hi)) fun _ => ?_
  refine builds_bind (builds_forIn Fresh _ _ fun k _ => yield_of_builds ?_) fun _ => builds_pure _
  refine builds_defconstant _ ?_
  split
  · exact readable_literalCode _ _
  · exact Noted.readable_nil

theorem readable_mappingGet : mappingGet.Readable := by simp [mappingGet, ifNode]

theorem readable_mappingSet : mappingSet.Readable := by simp [mappingSet, ifNode]

theorem readable_mergeList : mergeList.Readable := by simp [mergeList]

theorem readable_proofWalk : proofWalk.Readable := by simp [proofWalk, ifNode]

theorem builds_helpers (mappings merge : Bool) :
    Builds Open Open (do
      if mappings then
        defun (.str "mapping_get") (.list (texts ["m", "k"])) (.tree mappingGet) false
        defun (.str "mapping_set") (.list (texts ["m", "k", "v"])) (.tree mappingSet) false
      if merge then defun (.str "merge_list") (.list (texts ["a", "b"])) (.tree mergeList) false) := by
  have hmerge : Builds Open Open
      (if merge then defun (.str "merge_list") (.list (texts ["a", "b"])) (.tree mergeList) false
        else pure ()) := by
    split
    · exact builds_defun _ _ readable_mergeList _
    · exact builds_pure _
  cases mappings
  · exact hmerge
  · exact builds_bind (builds_defun _ _ readable_mappingGet _) fun _ =>
      builds_bind (builds_defun _ _ readable_mappingSet _) fun _ => hmerge

/-- The coin's functions are generated into an open builder, each from its body in an
environment of its parameters. -/
theorem addFunctions_tame (hA : A.Ready) {p : Puzzle} (hp : p.Open) :
    Tame A Open (addFunctions p) := by
  unfold addFunctions
  refine tame_bind tame_get fun g ⟨hg, _⟩ => ?_
  refine tame_bind (tame_forIn Open _ _ (fun f hf q hq => ?_) p hp) fun q hq => ?_
  · rw [hg] at hf
    have henv : ∀ val : Param → Noted,
        Env.Binds (f.params.reverse.map fun q => (q.name, val q)) (f.params.map (·.name)) := by
      intro val
      refine Env.binds_of_mem fun k hk => ?_
      obtain ⟨q, hq, rfl⟩ := List.mem_map.mp hk
      exact List.mem_map.mpr ⟨_, List.mem_map.mpr ⟨q, List.mem_reverse.mpr hq, rfl⟩, rfl⟩
    have hread : ∀ val : Param → Noted, (∀ q, (val q).Readable) →
        Env.Readable (f.params.reverse.map fun q => (q.name, val q)) := by
      intro val hval kv hkv
      obtain ⟨q, -, rfl⟩ := List.mem_map.mp hkv
      exact hval q
    refine tame_bind (body_tame (hA.functions f hf) ⟨henv _, hread _ fun _ => readable_sym _⟩
      ⟨Noted.readable_nil, Noted.readable_nil, Noted.readable_nil⟩ (fun h => nomatch h))
      fun code hcode => ?_
    refine tame_bind (tame_onPuzzle (builds_bind (builds_comment _) fun _ =>
      builds_defun _ _ hcode _) hq) fun r hr => ?_
    exact tame_pure ⟨r.2, rfl, hr⟩
  · refine tame_bind tame_get fun g' _ => ?_
    exact tame_bind (tame_onPuzzle (builds_helpers g'.usesMappings g'.usesMerge) hq) fun r hr =>
      tame_pure hr

/-! ### The code of an action -/

theorem lookup_zip_mem {ks : List String} {vs : List Noted} {k : String} {v : Noted}
    (h : (ks.zip vs).lookup k = some v) : v ∈ vs := by
  obtain ⟨l₁, l₂, hl, -⟩ := List.lookup_eq_some_iff.mp h
  have hmem : (k, v) ∈ ks.zip vs := hl ▸ List.mem_append_right _ List.mem_cons_self
  exact (List.of_mem_zip hmem).2

theorem lookup_zip_isSome {ks : List String} {vs : List Noted} {k : String}
    (hlen : ks.length ≤ vs.length) (hk : k ∈ ks) : ((ks.zip vs).lookup k).isSome := by
  have hfst : k ∈ (ks.zip vs).map Prod.fst := by
    rw [List.map_fst_zip hlen]
    exact hk
  obtain ⟨p, hp, rfl⟩ := List.mem_map.mp hfst
  exact List.lookup_isSome_iff.mpr ⟨p, hp, beq_self_eq_true _⟩

theorem paramEnv_bound (ps : List Param) {slots : List Noted} (hlen : ps.length ≤ slots.length)
    (hslots : ∀ x ∈ slots, x.Readable) :
    Bound (ps.map (·.name)) ((ps.zip slots).reverse.map fun x => (x.1.name, x.2)) := by
  refine ⟨Env.binds_of_mem fun k hk => ?_, fun kv hkv => ?_⟩
  · obtain ⟨p, hp, rfl⟩ := List.mem_map.mp hk
    have hfst : p ∈ (ps.zip slots).map Prod.fst := by
      rw [List.map_fst_zip hlen]
      exact hp
    obtain ⟨⟨p', v⟩, hpv, rfl⟩ := List.mem_map.mp hfst
    exact List.mem_map.mpr ⟨_, List.mem_map.mpr ⟨_, List.mem_reverse.mpr hpv, rfl⟩, rfl⟩
  · obtain ⟨⟨p, v⟩, hpv, rfl⟩ := List.mem_map.mp hkv
    exact hslots v (List.of_mem_zip (List.mem_reverse.mp hpv)).2

theorem readable_nth {base : Noted} (hb : base.Readable) (i : Nat) : (nth base i).Readable := by
  have hfold : ∀ (l : List Unit) (b : Noted), b.Readable →
      (l.foldl (fun el _ => call "r" [el]) b).Readable := by
    intro l
    induction l with
    | nil => exact fun b hb => hb
    | cons u us ih => exact fun b hb => ih _ (by simp [hb])
  simp [nth, hfold _ _ hb]

theorem Bound.bind {K : List String} {env : Env} (h : Bound K env) (k : String) {v : Noted}
    (hv : v.Readable) : Bound (k :: K) (env.bind k v) :=
  ⟨h.1.bind k v, h.2.bind k hv⟩

theorem Bound.mono {K K' : List String} {env : Env} (h : Bound K env) (hK : K' ⊆ K) :
    Bound K' env :=
  ⟨h.1.mono hK, h.2⟩

theorem amountEnv_bound {K : List String} {env : Env} (h : Bound K env) {E : List (String × Noted)}
    (hE : ∀ v, E.lookup "my_amount" = some v → v.Readable) {want : Bool}
    (hwant : want = true → (E.lookup "my_amount").isSome) :
    Bound (K ++ if want then ["msg.value"] else [])
      (match E.lookup "my_amount" with
        | some v => env.bind "msg.value" v
        | none => env) := by
  cases hv : E.lookup "my_amount" with
  | some v =>
    refine (h.bind "msg.value" (hE v hv)).mono fun k hk => ?_
    rcases List.mem_append.mp hk with hk | hk
    · exact List.mem_cons_of_mem _ hk
    · split at hk
      · rw [List.mem_singleton.mp hk]
        exact List.mem_cons_self
      · exact absurd hk List.not_mem_nil
  | none =>
    have hw : want = false := by
      cases want
      · rfl
      · have hsome := hwant rfl
        rw [hv] at hsome
        cases hsome
    simpa [hw] using h

theorem fieldsEnv_bound {st : Noted} (hst : st.Readable) :
    ∀ (L : List (String × Nat)) (env : Env) (K : List String), Bound K env →
      Bound (L.map (fun x => "state." ++ x.1) ++ K)
        (L.foldl (fun e x => match x with | (f, i) => e.bind ("state." ++ f) (nth st i)) env)
  | [], env, K, h => h
  | (f, i) :: L, env, K, h => by
    refine (fieldsEnv_bound hst L _ _ (h.bind ("state." ++ f) (readable_nth hst i))).mono
      fun k hk => ?_
    simp only [List.map_cons, List.cons_append, List.mem_cons, List.mem_append] at hk ⊢
    rcases hk with hk | hk | hk
    · exact .inr (.inl hk)
    · exact .inl hk
    · exact .inr (.inr hk)

theorem accessCheck_tame {access : List Expr} (h : ∀ e ∈ access, e.Resolves A.globals [])
    {signer message out : Noted} (hs : signer.Readable) (hm : message.Readable)
    (hout : out.Readable) :
    Tame A Noted.Readable (signerCheck access signer message out) := by
  unfold signerCheck
  refine tame_bind (tame_mapM _ _ _ fun e he =>
    expr_tame (h e he) (fun _ h => absurd h List.not_mem_nil) (fun _ h => absurd h List.not_mem_nil))
    fun addrs haddrs => ?_
  split
  · exact tame_pure hout
  · refine tame_bind (condition_tame (by decide) fun x hx => ?_) fun c hc =>
      tame_pure (Build.readable_consCondition hc hout)
    simp only [List.mem_cons, List.not_mem_nil, or_false] at hx
    rcases hx with rfl | rfl
    · exact haddrs _ List.mem_cons_self
    · exact hm
  · refine tame_bind (condition_tame (by decide) fun x hx => ?_) fun c hc => tame_pure ?_
    · simp only [List.mem_cons, List.not_mem_nil, or_false] at hx
      rcases hx with rfl | rfl
      · exact hs
      · exact hm
    · simp only [ifNode, consCondition, readable_call_iff, List.mem_cons, List.not_mem_nil,
        or_false, forall_eq_or_imp, forall_eq, List.mem_map]
      refine ⟨fun y hy => ?_, ⟨hc, hout⟩, readable_failNode _⟩
      obtain ⟨a, ha, rfl⟩ := hy
      simp [hs, haddrs a ha]

theorem actionBody_tame (hA : A.Ready) {info : ActionInfo} (hinfo : info ∈ A.actions)
    {slots : List Noted} (hlen : slots.length = info.signature.template.length)
    (hslots : ∀ x ∈ slots, x.Readable) {selfHash : Noted} (hself : selfHash.Readable) :
    Tame A Noted.Readable (actionBody info info.signature slots selfHash) := by
  have hr := hA.actions info hinfo
  unfold actionBody
  dsimp only [ActionScope.of]
  refine tame_bind tame_get fun g ⟨hg, _⟩ => ?_
  rw [hg]
  have hn : (info.action.params.map (·.name)).length = info.action.params.length := List.length_map ..
  have hextra : info.signature.template.drop info.action.params.length =
      (if info.usesSigner then ["signer"] else []) ++
        ((if info.usesAmount || info.stateful then ["my_amount"] else []) ++
          (if info.stateful then ["state"] else [])) := by
    simp only [Signature.template, ActionInfo.signature, List.append_assoc]
    exact List.drop_left' hn
  have hlen' : (info.signature.template.drop info.action.params.length).length ≤
      (slots.drop info.action.params.length).length := by
    simp only [List.length_drop, hlen]
    exact Nat.le_refl _
  generalize hE : (List.drop info.action.params.length info.signature.template).zip
    (List.drop info.action.params.length slots) = E
  have hEread : ∀ k v, E.lookup k = some v → v.Readable := by
    intro k v h
    rw [← hE] at h
    exact hslots v (List.mem_of_mem_drop (lookup_zip_mem h))
  have hEsome : ∀ k, k ∈ info.signature.template.drop info.action.params.length → (E.lookup k).isSome := by
    intro k hk
    rw [← hE]
    exact lookup_zip_isSome hlen' hk
  have hamount : (info.usesAmount || info.stateful) = true → (E.lookup "my_amount").isSome :=
    fun h => hEsome _ (by rw [hextra]; simp [h])
  have hstate : info.stateful = true → (E.lookup "state").isSome :=
    fun h => hEsome _ (by rw [hextra]; simp [h])
  have hparams : info.action.params.length ≤ slots.length := by
    rw [hlen]
    simp [Signature.template, ActionInfo.signature]
  have hb1 := amountEnv_bound (paramEnv_bound info.action.params hparams hslots)
    (fun v h => hEread _ v h) hamount
  have hgetD : ∀ k, ((E.lookup k).getD Noted.nil).Readable := by
    intro k
    cases h : E.lookup k with
    | none => exact Noted.readable_nil
    | some v => exact hEread k v h
  have hmessage : ∀ b : Bool, (call "sha256tree" [if b = true then Noted.nil
      else call "list" (slots.take info.action.params.length)]).Readable := by
    intro b
    refine (readable_call_iff _).mpr fun x hx => ?_
    rw [List.mem_singleton.mp hx]
    split
    · exact Noted.readable_nil
    · exact (readable_call_iff _).mpr fun y hy => hslots y (List.mem_of_mem_take hy)
  refine tame_bind (body_tame hr.body ?_ ⟨hmessage _, hself, hgetD _⟩ ?_) fun out hout => ?_
  · -- the spend binds the parameters, the amount when it carries it, and the state fields
    rw [show info.signature.stateful = info.stateful from rfl]
    cases hs : info.stateful with
    | false =>
      dsimp only
      refine hb1.mono fun k hk => ?_
      simpa [ActionInfo.keys, hs] using hk
    | true =>
      obtain ⟨st, hst⟩ := Option.isSome_iff_exists.mp (hstate hs)
      rw [hst]
      dsimp only
      refine (fieldsEnv_bound (hEread _ st hst) _ _ _ hb1).mono fun k hk => ?_
      simp only [ActionInfo.keys, hs, Bool.or_true, if_true, List.mem_append] at hk ⊢
      rcases hk with hk | hk | hk
      · exact .inr (.inl hk)
      · exact .inr (.inr hk)
      · obtain ⟨f, hf, rfl⟩ := List.mem_map.mp hk
        obtain ⟨i, hi⟩ := List.mem_iff_getElem?.mp hf
        exact .inl (List.mem_map.mpr ⟨(f, i), List.mk_mem_zipIdx_iff_getElem?.mpr hi, rfl⟩)
  · -- a stateful action's exit reads the state fields, which are bound
    intro _ hs f hf
    have hs' : info.stateful = true := hs
    simp only [ActionInfo.signature, hs', if_true] at hf
    simp only [ActionInfo.keys, hs', Bool.or_true, if_true]
    exact List.mem_append_right _ (List.mem_append_right _ (List.mem_map.mpr ⟨f, hf, rfl⟩))
  · split
    · rename_i v hv
      refine tame_bind (condition_tame (by decide) fun x hx => ?_) fun c hc =>
        accessCheck_tame hr.access (hgetD _) (hmessage _) (Build.readable_consCondition hc hout)
      rw [List.mem_singleton.mp hx]
      exact hEread _ v hv
    · exact accessCheck_tame hr.access (hgetD _) (hmessage _) hout

end Generate

end PuzzleKit.Script
