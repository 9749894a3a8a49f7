import PuzzleKit.Proofs.Programs
import PuzzleKit.Proofs.NestingCap

/-!
# A coin the check accepts compiles

Compiling a coin that the parser reads and the check accepts, with no storage value given and
a dispatch mode the coin admits, gives a compiled coin, or fails at one of the nesting limits
(`compileSource_accepted`): the nesting of `if`s that lowering allows, the depth that
generation allows a program, and the 500 levels that the indented layout allows a part.

Generation of an accepted coin is `generate_sound`; the rest of compilation cannot fail on
it. The storage values are the initial values the check admitted, or zero, and a value curried
for a 32-byte name is 32 bytes (`storageValues_runs`); a sound program builds and names its
include files; the layout, at a numeric width, fails only past its own nesting cap
(`Style.write_within`); and the tree of merkle actions takes each action program, under a name
of its own, with a 32-byte hash (`ActionTree.add_fresh`).
-/

namespace PuzzleKit

open Build Build.Puzzle

namespace Script

/-! ### Logged steps that fail only at a nesting limit -/

/-- A logged step that, from every log, gives a value `Q` holds of, or fails at a nesting
limit. -/
def LoggedWithin {α : Type} (Q : α → Prop) (x : Logged α) : Prop :=
  ∀ log, match x.run log with
    | .ok a _ => Q a
    | .error e _ => NestingFault e

section LoggedWithin

variable {α β γ : Type} {P Q : α → Prop}

theorem loggedWithin_pure {a : α} (h : Q a) : LoggedWithin Q (pure a) := fun _ => h

theorem loggedWithin_bind {R : β → Prop} {x : Logged α} {f : α → Logged β}
    (hx : LoggedWithin P x) (hf : ∀ a, P a → LoggedWithin R (f a)) :
    LoggedWithin R (x >>= f) := by
  intro log
  have h := hx log
  rw [EStateM.run_bind]
  cases hr : x.run log with
  | ok a log' =>
    rw [hr] at h
    exact hf a h log'
  | error e log' =>
    rw [hr] at h
    exact h

theorem LoggedWithin.mono {x : Logged α} (h : LoggedWithin P x) (hPQ : ∀ a, P a → Q a) :
    LoggedWithin Q x := by
  intro log
  have h' := h log
  cases hr : x.run log with
  | ok a _ => rw [hr] at h'; exact hPQ a h'
  | error e _ => rw [hr] at h'; exact h'

theorem loggedWithin_lift {r : Except Failure α} (h : Within Q r) : LoggedWithin Q (Logged.lift r) := by
  cases r with
  | ok a => exact loggedWithin_pure h
  | error e => exact fun _ => h

theorem loggedWithin_warn (w : String) : LoggedWithin (fun _ => True) (Logged.warn w) :=
  fun _ => trivial

theorem loggedWithin_forIn {body : γ → β → Logged (ForInStep β)} (I : List γ → β → Prop) :
    ∀ (xs pre : List γ) (b : β), (∀ pre' x suf b, pre' ++ x :: suf = pre ++ xs → I pre' b →
      LoggedWithin (fun r => ∃ b', r = .yield b' ∧ I (pre' ++ [x]) b') (body x b)) →
      I pre b → LoggedWithin (I (pre ++ xs)) (forIn xs b body)
  | [], pre, b, _, hb => loggedWithin_pure (by simpa using hb)
  | x :: xs, pre, b, h, hb => by
    rw [List.forIn_cons]
    refine loggedWithin_bind (h pre x xs b rfl hb) fun r ⟨b', hr, hb'⟩ => ?_
    subst hr
    have hrest := loggedWithin_forIn I xs (pre ++ [x]) b'
      (fun pre' y suf b hy => h pre' y suf b (by rw [hy, List.append_assoc, List.singleton_append]))
      hb'
    rwa [List.append_assoc, List.singleton_append] at hrest

end LoggedWithin

/-! ### The storage values -/

theorem AddressCodec.tryDecode_length {c : AddressCodec} {s : String} {h : List UInt8}
    (hd : c.tryDecode s = some h) : h.length = 32 := by
  unfold AddressCodec.tryDecode at hd
  split at hd
  · cases hdec : c.decode s with
    | error e => rw [hdec] at hd; cases hd
    | ok bs =>
      rw [hdec] at hd
      cases hd
      unfold AddressCodec.decode at hdec
      -- only a decoding of 32 bytes succeeds
      repeat' split at hdec
      all_goals cases hdec
      rename_i hlen
      rw [List.length_map, hlen]
  · cases hd

theorem literalCode_hash {codec : AddressCodec} {l : Literal}
    (h : compatible hashClass (Check.literalClass codec l) = true) :
    ∃ b, literalCode codec l = bytesAtom b ∧ b.length = 32 := by
  cases l with
  | int n =>
    change compatible hashClass intClass = true at h
    exact absurd h (by decide)
  | bool b =>
    change compatible hashClass boolClass = true at h
    exact absurd h (by decide)
  | hex b =>
    by_cases hb : b.length = 32
    · exact ⟨b, rfl, hb⟩
    · have hc : Check.literalClass codec (.hex b) = bytesClass := by
        simp [Check.literalClass, hb]
      rw [hc] at h
      exact absurd h (by decide)
  | string s =>
    cases hd : codec.tryDecode s with
    | some bs => exact ⟨bs, by simp [literalCode, hd], AddressCodec.tryDecode_length hd⟩
    | none =>
      have hc : Check.literalClass codec (.string s) = stringClass := by
        simp [Check.literalClass, hd]
      rw [hc] at h
      exact absurd h (by decide)

theorem analyze_storage_symbols {coin : CoinDecl} {codec : AddressCodec} {A : Analysis}
    (h : analyze coin codec = .ok A) {s : Symbol} (hs : s ∈ A.storage) :
    s ∈ A.globals ∧ s.kind = .storage := by
  obtain ⟨hentries, hdecl⟩ := analyze_declared h
  unfold Analysis.storage Analysis.symbol? at hs
  rw [analyze_coin h] at hs
  obtain ⟨v, hv, hfind⟩ := List.mem_filterMap.mp hs
  have he : (v.name, SymbolKind.storage, vmSafe (upperSnake v.name)) ∈ A.globals.map Symbol.entry := by
    rw [hentries]
    simp only [CoinDecl.entries, List.mem_append, List.mem_map]
    exact .inl (.inl (.inl (.inl ⟨v, hv, rfl⟩)))
  obtain ⟨t, ht, hte⟩ := find?_of_mem_entries hdecl.names he
  rw [ht] at hfind
  cases hfind
  simp only [Symbol.entry, Prod.mk.injEq] at hte
  exact ⟨List.mem_of_find?_eq_some ht, hte.2.1⟩

/-- With no values given, the storage values of an accepted coin are found with no fault: each is
the initial value the check admitted, or zero, and a value for a 32-byte name is 32 bytes. They
are curried under the generated names of the storage variables, in order. -/
theorem storageValues_runs {coin : CoinDecl} {A : Analysis} {opts : CompileOptions}
    (h : analyze coin opts.codec = .ok A) (hs : opts.storage = []) :
    LoggedWithin (fun out => out.map Prod.fst = A.storage.map (·.vmName)) (storageValues A opts) := by
  unfold storageValues
  rw [hs]
  dsimp only
  have hinits := analyze_storageInits h
  refine loggedWithin_bind (loggedWithin_forIn (fun pre (st : List (String × Value) × List (String × Noted)) =>
      st.1 = [] ∧ st.2.map Prod.fst = pre.map (·.vmName)) _ [] ([], [])
      (fun pre s suf st hsplit hst => ?_) ⟨rfl, rfl⟩) fun st hst => ?_
  · have hs : s ∈ A.storage := by
      rw [← List.nil_append A.storage, ← hsplit]
      simp
    obtain ⟨hmem, hkind⟩ := analyze_storage_symbols h hs
    obtain ⟨v, horigin, htype, hinit⟩ := hinits s hmem hkind
    rw [hst.1]
    dsimp only [List.lookup]
    have hnext : ∀ el : Noted, ∃ b' : List (String × Value) × List (String × Noted),
        ForInStep.yield ([], st.2 ++ [(s.vmName, el)]) = .yield b' ∧
        b'.1 = [] ∧ b'.2.map Prod.fst = (pre ++ [s]).map (·.vmName) :=
      fun el => ⟨_, rfl, rfl, by simp [hst.2]⟩
    rw [horigin]
    obtain ⟨name, type, init, pos⟩ := v
    cases init with
    | none =>
      -- no initial value: zero, of 32 bytes for a 32-byte name
      refine loggedWithin_bind (loggedWithin_warn _) fun _ _ => ?_
      refine loggedWithin_bind (loggedWithin_pure (Q := (· = if (s.type.cls == hashClass) = true then
        bytesAtom (List.replicate 32 0) else Noted.nil)) rfl) fun el hel => ?_
      subst hel
      split
      · simp only [bytesAtom, List.length_replicate, bne_self_eq_false, Bool.false_eq_true, if_false]
        exact loggedWithin_pure (hnext _)
      · exact loggedWithin_pure (hnext _)
    | some e =>
      obtain ⟨l, p, rfl, hl⟩ := hinit e rfl
      refine loggedWithin_bind (loggedWithin_pure (Q := (· = literalCode opts.codec l)) rfl)
        fun el hel => ?_
      subst hel
      split
      · rename_i hc
        have hcls : classOf (some type.text) = hashClass := by
          rw [htype] at hc
          simpa [SymbolType.cls, SymbolType.text] using hc
        rw [hcls] at hl
        obtain ⟨b, hb, hlen⟩ := literalCode_hash hl
        rw [hb]
        simp only [bytesAtom, hlen, bne_self_eq_false, Bool.false_eq_true, if_false]
        exact loggedWithin_pure (hnext _)
      · exact loggedWithin_pure (hnext _)
  -- no value was given, so none is left over
  rw [hst.1, List.nil_append] at *
  refine loggedWithin_bind (loggedWithin_pure (Q := fun _ => True) trivial) fun _ _ => ?_
  exact loggedWithin_pure hst.2

theorem within_map {α β : Type} {x : Except Failure α} (h : Within (fun _ => True) x) (f : α → β) :
    Within (fun _ => True) (f <$> x) := by
  cases x with
  | ok a => trivial
  | error e => exact h

end Script

open Script

/-! ### The layout fails only past its nesting cap -/

theorem Bound.within_exceededBy {b : Bound} (hb : b.Numeric) (n : Int) :
    Within (fun _ => True) (b.exceededBy n) := by
  obtain ⟨x, hx⟩ := Bound.exceededBy_ok hb n
  rw [hx]
  trivial

theorem Bound.within_admits {b : Bound} (hb : b.Numeric) (n : Int) :
    Within (fun _ => True) (b.admits n) := by
  cases b with
  | other t => exact absurd rfl (hb t)
  | _ => trivial

/-- A layout whose limits are numbers, so that comparing with them gives an answer. -/
structure Style.Numeric (st : Style) : Prop where
  width : st.width.Numeric
  flatDepth : st.flatDepth.Numeric
  maxDepth : st.maxDepth.Numeric

namespace Style

variable {st : Style} (sn : Remarks) (hs : st.Numeric)
include hs

theorem leaf_within (n : Noted) (indent : String) (depth : Nat) :
    Within (fun _ => True) (st.leaf sn n indent depth) := by
  unfold leaf
  obtain ⟨b, hb⟩ := Bound.exceededBy_ok hs.maxDepth depth
  rw [hb]
  cases b
  · trivial
  · exact NestingFault.layout _

theorem fitsFlat_within (n : Noted) (indent : String) :
    Within (fun _ => True) (st.fitsFlat sn n indent) := by
  unfold fitsFlat
  split
  · trivial
  · refine within_bind (Bound.within_admits hs.width _) fun _ _ => ?_
    split
    · trivial
    · exact within_bind (Bound.within_exceededBy hs.flatDepth _) fun _ _ => trivial

theorem onHeadLine_within (indent : String) :
    ∀ (j : Nat) (r : Noted), Within (fun _ => True) (st.onHeadLine sn indent j r)
  | 0, _ => trivial
  | j + 1, .cons f r _ => by
    unfold onHeadLine
    split
    · trivial
    · refine within_bind (Bound.within_exceededBy hs.width _) fun _ _ => ?_
      split
      · trivial
      · exact within_bind (onHeadLine_within indent j r) fun _ _ => trivial
  | _ + 1, .atom .. => trivial

mutual

theorem block_within : ∀ (n : Noted) (indent : String) (depth : Nat),
    Within (fun _ => True) (st.block sn n indent depth)
  | .atom b h t, indent, depth => by
    rw [block]
    · exact leaf_within sn hs _ indent depth
    all_goals simp
  | .cons f r t, indent, depth => by
    rw [block]
    refine within_bind (Bound.within_exceededBy hs.maxDepth _) fun b _ => ?_
    cases b
    · dsimp only [Bool.false_eq_true, if_false]
      refine within_bind (fitsFlat_within sn hs _ indent) fun _ _ => ?_
      split
      · trivial
      · split
        · refine within_bind (onHeadLine_within sn hs _ _ r) fun _ _ => ?_
          exact within_bind (chain_within r _ (depth + 1) _) fun _ _ => trivial
        · refine within_bind (block_within f _ (depth + 1)) fun _ _ => ?_
          exact within_bind (chain_within r _ (depth + 1) 0) fun _ _ => trivial
    · exact NestingFault.layout _

theorem chain_within : ∀ (n : Noted) (indent : String) (depth skip : Nat),
    Within (fun _ => True) (st.chain sn n indent depth skip)
  | .cons f r t, indent, depth, j + 1 => by
    rw [chain]
    exact chain_within r indent depth j
  | .cons f r t, indent, depth, 0 => by
    rw [chain]
    refine within_bind (block_within f indent depth) fun _ _ => ?_
    exact within_bind (chain_within r indent depth 0) fun _ _ => trivial
  | .atom b h t, indent, depth, skip => by
    rw [chain]
    · split
      · trivial
      · exact within_map (leaf_within sn hs _ indent depth) _
    all_goals simp

end

/-- At numeric limits, writing a part fails only where it nests deeper than the layout's cap. -/
theorem write_within (trailing : List String) (n : Noted) :
    Within (fun _ => True) (st.write sn trailing n) := by
  unfold write
  split
  · trivial
  · exact within_map (block_within sn hs n "" 0) _

end Style

/-! ### The tree of merkle actions -/

namespace ActionTree

theorem position?_of_not_mem {t : ActionTree} (hw : t.Wf) {name : String} (hn : name ∉ t.names) :
    t.position? (.str name) = .ok none := by
  rw [position?_str, hw.index, List.find?_map]
  have hnone : t.leaves.zipIdx.find? ((fun p : Value × Nat => Value.itemEq (.str name) p.1) ∘
      fun p : (String × List UInt8 × List UInt8) × Nat => (Value.str p.1.1, p.2)) = none := by
    refine List.find?_eq_none.mpr fun p hp => ?_
    have hmem : p.1.1 ∈ t.names := List.mem_map_of_mem (List.fst_mem_of_mem_zipIdx hp)
    have hne : name ≠ p.1.1 := fun e => hn (e ▸ hmem)
    simpa [Build.Puzzle.itemEq_str] using hne
  rw [hnone]
  rfl

/-- An action of a new name is added with a 32-byte program hash. -/
theorem add_fresh {t : ActionTree} (hw : t.Wf) {name : String} (hn : name ∉ t.names)
    {h : List UInt8} (hh : h.length = 32) :
    ∃ t', t.add name h = .ok t' ∧ t'.Wf ∧ t'.names = t.names ++ [name] := by
  have hadd : t.add name h = .ok (⟨t.leaves ++ [(name, h, actionLeaf name h)],
      t.index ++ [(.str name, t.leaves.length)]⟩ : ActionTree) := by
    unfold add
    rw [run_insert, position?_of_not_mem hw hn]
    simp [checkHash, hh, Value.utf8Text]
  exact ⟨_, hadd, hw.add hadd, by simp [names]⟩

end ActionTree

namespace Script

/-! ### Compiling an accepted coin -/

theorem curriedHash_length (modHash : List UInt8) (argHashes : List (List UInt8)) :
    (curriedHash modHash argHashes).length = 32 := by
  simp [curriedHash, pairHash, Sha256.length_hash]

theorem build_within {p : Puzzle} (hp : p.Sound) (rm : Remarks) :
    Within (fun _ => True) ((runBuilder { p with remarks := rm } Puzzle.build).map Noted.tree) := by
  obtain ⟨el, rm', hb⟩ := build_sound (hp.withRemarks rm)
  simp only [runBuilder, hb]
  trivial

theorem render_within {p : Puzzle} (hp : p.Sound) (rm : Remarks) (indented : Bool) {width : Bound}
    (hw : width.Numeric) :
    Within (fun _ => True) (runBuilder { p with remarks := rm } (Puzzle.serialize indented width)) := by
  obtain ⟨el, rm', hb⟩ := build_sound (hp.withRemarks rm)
  rw [runBuilder_serialize hb]
  exact Style.write_within _ ⟨hw, (by intro t h; cases h), (by intro t h; cases h)⟩ _ _

theorem includes_within {p : Puzzle} (hp : p.Sound) (rm : Remarks) :
    Within (fun _ => True)
      ((runBuilder { p with remarks := rm } Puzzle.includeList).map (fun x => x.map Value.text)) := by
  obtain ⟨incs, rm', hi⟩ := includeList_sound (hp.withRemarks rm)
  simp only [runBuilder, hi]
  trivial

theorem finish_within {opts : CompileOptions} (hw : opts.width.Numeric) {p : Puzzle}
    (hp : p.Sound) (rm : Remarks) (k : String → List String → Compiled) :
    LoggedWithin (fun _ => True)
      (Logged.ofExcept (runBuilder { p with remarks := rm } (Puzzle.serialize opts.indent opts.width)) >>=
        fun src => Logged.ofExcept ((runBuilder { p with remarks := rm } Puzzle.includeList).map
          (fun x => x.map Value.text)) >>= fun includes => pure (k src includes)) :=
  loggedWithin_bind (loggedWithin_lift (render_within hp rm _ hw)) fun _ _ =>
    loggedWithin_bind (loggedWithin_lift (includes_within hp rm)) fun _ _ => loggedWithin_pure trivial

/-- The dispatch modes a coin admits: `auto`, `dispatch` and `merkle` always, and `direct` when
the coin has exactly one action. -/
def Admits (coin : CoinDecl) (request : String) : Prop :=
  request = "auto" ∨ request = "dispatch" ∨ request = "merkle" ∨
    (request = "direct" ∧ coin.actions.length = 1)

theorem pickMode_ok {A : Analysis} {request : String} (h : Admits A.coin request) :
    ∃ mode, pickMode A request = .ok mode := by
  unfold pickMode
  rcases h with rfl | rfl | rfl | ⟨rfl, hn⟩
  · exact ⟨_, rfl⟩
  · exact ⟨_, rfl⟩
  · exact ⟨_, rfl⟩
  · exact ⟨.direct, by simp [hn]; rfl⟩

theorem compileSource_within {src : String} {opts : CompileOptions} {coin : CoinDecl}
    {A : Analysis} (hparse : parse src = .ok coin) (hcheck : analyze coin opts.codec = .ok A)
    (hstorage : opts.storage = []) (hmode : Admits coin opts.dispatch)
    (hdepth : opts.maxDepth.Numeric) (hwidth : opts.width.Numeric) :
    LoggedWithin (fun _ => True) (compileSource src opts) := by
  have hA := analyze_ready (parse_written hparse) hcheck
  obtain ⟨mode, hpick⟩ := pickMode_ok (A := A) (by rw [analyze_coin hcheck]; exact hmode)
  unfold compileSource
  dsimp only
  refine loggedWithin_bind (loggedWithin_lift (Q := (· = coin)) (by rw [hparse]; rfl)) fun c hc => ?_
  subst hc
  refine loggedWithin_bind (loggedWithin_lift (Q := (· = A)) (by rw [hcheck]; rfl)) fun a ha => ?_
  subst ha
  refine loggedWithin_bind (loggedWithin_lift (generate_sound hA hpick _ hdepth)) fun g hg => ?_
  refine loggedWithin_bind (storageValues_runs hcheck hstorage) fun storage _ => ?_
  refine loggedWithin_bind (loggedWithin_lift (build_within hg.main _)) fun mod _ => ?_
  split
  · -- merkle mode: each action program is built, written and added to the tree under its name
    refine loggedWithin_bind (loggedWithin_forIn (fun pre (st : List (String × Tree) ×
        List (String × String) × ActionTree) => st.2.2.Wf ∧ st.2.2.names = pre.map (·.1)) _ [] _
        (fun pre x suf st hsplit hst => ?_) ⟨ActionTree.Built.empty.wf, rfl⟩) fun st _ => ?_
    · rw [List.nil_append] at hsplit
      have hx : x ∈ g.actionMods := by
        rw [← hsplit]
        simp
      -- no action program before this one has its name
      have hfresh : x.1 ∉ st.2.2.names := by
        have hnd := hg.names
        rw [← hsplit, List.map_append, List.map_cons] at hnd
        rw [hst.2]
        exact fun hmem => (List.nodup_append.mp hnd).2.2 _ hmem _ List.mem_cons_self rfl
      refine loggedWithin_bind (loggedWithin_lift (build_within (hg.mods x hx) _)) fun m _ => ?_
      refine loggedWithin_bind (loggedWithin_lift (render_within (hg.mods x hx) _ _ hwidth))
        fun _ _ => ?_
      obtain ⟨t', hadd, hwf, hnames⟩ := ActionTree.add_fresh hst.1 hfresh (curriedHash_length
        m.hash (storage.map fun x => x.2.tree.hash))
      refine loggedWithin_bind (loggedWithin_lift (Q := (· = t')) (by rw [hadd]; rfl)) fun t ht => ?_
      subst ht
      exact loggedWithin_pure ⟨_, rfl, hwf, by rw [hnames, hst.2]; simp⟩
    split <;> exact finish_within hwidth hg.main _ _
  · split <;> exact finish_within hwidth hg.main _ _

/-- The check is sound for code generation. A coin the parser reads and the check accepts
compiles, with no storage value given, in every dispatch mode it admits and at numeric limits of
depth and width, or fails at a nesting limit: of `if`s to lower, of a generated program's depth,
or of the layout's 500 levels. No other failure is left: every name resolves, every program
builds, every include file may be used, and every storage value is accepted. -/
theorem compileSource_accepted {src : String} {opts : CompileOptions} {coin : CoinDecl}
    {A : Analysis} (hparse : parse src = .ok coin) (hcheck : analyze coin opts.codec = .ok A)
    (hstorage : opts.storage = []) (hmode : Admits coin opts.dispatch)
    (hdepth : opts.maxDepth.Numeric) (hwidth : opts.width.Numeric) (log : List String) :
    (∃ c log', (compileSource src opts).run log = .ok c log') ∨
      ∃ e log', (compileSource src opts).run log = .error e log' ∧ NestingFault e := by
  have h := compileSource_within hparse hcheck hstorage hmode hdepth hwidth log
  cases hr : (compileSource src opts).run log with
  | ok c log' => exact .inl ⟨c, log', rfl⟩
  | error e log' =>
    rw [hr] at h
    exact .inr ⟨e, log', rfl, h⟩

/-- The text of a wallet whose owner pays out: the one action requires the owner's signature
and creates a coin for the recipient. -/
def walletText : String :=
  "coin Wallet \x7b\n  storage address owner;\n\n  action pay(address to, uint64 amount) \x7b\n" ++
    "    require(msg.sender == owner, \"not owner\");\n    send(to, amount);\n  \x7d\n\x7d\n"

theorem compileSource_accepted_wallet : ∃ coin A,
    parse walletText = .ok coin ∧
    analyze coin ({} : CompileOptions).codec = .ok A ∧ ({} : CompileOptions).storage = [] ∧
    Admits coin ({} : CompileOptions).dispatch ∧ ({} : CompileOptions).maxDepth.Numeric ∧
    ({} : CompileOptions).width.Numeric ∧
    ((∃ c log', (compileSource walletText {}).run [] = .ok c log') ∨
      ∃ e log', (compileSource walletText {}).run [] = .error e log' ∧
        NestingFault e) := by
  have hok : ((parse walletText).bind fun coin =>
      (analyze coin {}).map fun _ => ()).toBool = true := by
    decide +kernel
  have hnum : (Bound.whole 500).Numeric ∧ (Bound.whole 80).Numeric :=
    ⟨(by intro t h; cases h), (by intro t h; cases h)⟩
  cases hp : parse walletText with
  | error e => rw [hp] at hok; cases hok
  | ok coin =>
    rw [hp] at hok
    change ((analyze coin {}).map fun _ => ()).toBool = true at hok
    cases ha : analyze coin {} with
    | error e => rw [ha] at hok; cases hok
    | ok A =>
      have hmode : Admits coin ({} : CompileOptions).dispatch := .inl rfl
      exact ⟨coin, A, rfl, ha, rfl, hmode, hnum.1, hnum.2,
        @compileSource_accepted _ {} coin A hp ha rfl hmode hnum.1 hnum.2 []⟩

end Script

end PuzzleKit
