import PuzzleKit.Proofs.Readable

/-!
# Programs that build

Building a program reads its pieces back: its parameter names must be text that can be a key,
the name of each declaration is read from its code, the include files it needs are found from
the text of its symbols, and every include file is checked. A puzzle is `Sound` when all of
that succeeds. A sound puzzle builds without failure, and the builder calls that code
generation makes keep puzzles sound.

`Builds P Q m` says that the builder call `m` succeeds from every puzzle where `P` holds and
ends where `Q` holds; calls compose as the `do` blocks of the generator do.
-/

namespace PuzzleKit.Build

namespace Puzzle

/-- The code of a declaration that is readable and names what it declares. -/
def Declaration (el : Noted) : Prop := el.Readable ∧ ∃ t, declName el = .ok t

/-- A puzzle that builds: its names are text, its include files may be used, its declarations
are readable and name themselves, and its body only ends. -/
structure Sound (p : Puzzle) : Prop where
  curried : ∀ x ∈ p.curriedNames, ∃ s : String, x = .str s
  solution : ∀ x ∈ p.solution, ∃ s : String, x = .str s
  rest : p.rest = .none ∨ ∃ s : String, p.rest = .str s
  includes : ∀ x ∈ p.includes, ∃ s : String, x = .str s ∧ includeAllowed s = true
  constants : ∀ el ∈ p.constants, Declaration el
  functions : ∀ el ∈ p.functions, Declaration el
  steps : ∀ st ∈ p.steps, st.2 = .stop
  tail : ∀ t, p.tail = some t → t.Readable

/-- A sound puzzle whose body has not ended: calls may still add to it. -/
def Open (p : Puzzle) : Prop := p.Sound ∧ p.tail = none

/-- An open puzzle with no solution parameters yet. -/
def Fresh (p : Puzzle) : Prop := p.Open ∧ p.solution = []

theorem fresh_start (name : Option String) (path : List Nat) (rm : Remarks) :
    ({ name, path, remarks := rm } : Puzzle).Fresh := by
  refine ⟨⟨⟨?_, ?_, .inl rfl, ?_, ?_, ?_, ?_, ?_⟩, rfl⟩, rfl⟩ <;> simp [curriedNames]

theorem Sound.withRemarks {p : Puzzle} (h : p.Sound) (rm : Remarks) :
    ({ p with remarks := rm } : Puzzle).Sound :=
  ⟨h.curried, h.solution, h.rest, h.includes, h.constants, h.functions, h.steps, h.tail⟩

theorem Open.withRemarks {p : Puzzle} (h : p.Open) (rm : Remarks) :
    ({ p with remarks := rm } : Puzzle).Open :=
  ⟨h.1.withRemarks rm, h.2⟩

/-! ### Builder calls that succeed -/

section Builds

variable {α β : Type} {P Q R : Puzzle → Prop}

/-- A builder call that succeeds from every puzzle where `P` holds, ending where `Q` holds. -/
def Builds (P Q : Puzzle → Prop) (m : PuzzleM α) : Prop :=
  ∀ p, P p → ∃ a p', m.run p = .ok a p' ∧ Q p'

theorem builds_pure (a : α) : Builds P P (pure a) := fun p hp => ⟨a, p, rfl, hp⟩

theorem builds_bind {x : PuzzleM α} {f : α → PuzzleM β} (hx : Builds P Q x)
    (hf : ∀ a, Builds Q R (f a)) : Builds P R (x >>= f) := by
  intro p hp
  obtain ⟨a, p1, h1, hq⟩ := hx p hp
  obtain ⟨b, p2, h2, hr⟩ := hf a p1 hq
  refine ⟨b, p2, ?_, hr⟩
  rw [EStateM.run_bind, h1]
  exact h2

theorem Builds.mono {m : PuzzleM α} {P' Q' : Puzzle → Prop} (h : Builds P Q m)
    (hP : ∀ p, P' p → P p) (hQ : ∀ p, Q p → Q' p) : Builds P' Q' m := by
  intro p hp
  obtain ⟨a, p', hm, hq⟩ := h p (hP p hp)
  exact ⟨a, p', hm, hQ p' hq⟩

theorem builds_modify {f : Puzzle → Puzzle} (hf : ∀ p, P p → Q (f p)) :
    Builds P Q (modify f) :=
  fun p hp => ⟨(), f p, rfl, hf p hp⟩

theorem builds_forIn {γ : Type} (I : Puzzle → Prop) (xs : List γ)
    (body : γ → PUnit → PuzzleM (ForInStep PUnit))
    (h : ∀ x ∈ xs, ∀ p, I p → ∃ p', (body x PUnit.unit).run p = .ok (.yield PUnit.unit) p' ∧ I p') :
    Builds I I (forIn xs PUnit.unit body) := by
  induction xs with
  | nil => exact builds_pure _
  | cons x xs ih =>
    intro p hp
    obtain ⟨p1, h1, hp1⟩ := h x List.mem_cons_self p hp
    obtain ⟨u, p2, h2, hp2⟩ := ih (fun y hy => h y (List.mem_cons_of_mem _ hy)) p1 hp1
    refine ⟨u, p2, ?_, hp2⟩
    rw [List.forIn_cons, EStateM.run_bind, h1]
    exact h2

theorem yield_of_builds {I : Puzzle → Prop} {m : PuzzleM α} (h : Builds I I m) :
    ∀ p, I p → ∃ p', (do let _ ← m; pure (ForInStep.yield PUnit.unit)).run p =
      .ok (.yield PUnit.unit) p' ∧ I p' := by
  intro p hp
  obtain ⟨a, p', hm, hq⟩ := h p hp
  refine ⟨p', ?_, hq⟩
  rw [EStateM.run_bind, hm]
  rfl

end Builds

/-! ### The calls of code generation -/

theorem equal_str (a b : String) : Value.equal (.str a) (.str b) = (a == b) := by
  rw [Value.equal]

theorem itemEq_str (a b : String) : Value.itemEq (.str a) (.str b) = (a == b) := by
  rw [Value.itemEq, equal_str]
  rfl

theorem declaration_attach (kw name : String) {args : List Noted} (h : ∀ x ∈ args, x.Readable)
    (rm : Remarks) (ns : List String) :
    Declaration ((Noted.ofList (sym kw :: sym name :: args)).attach rm ns).1 := by
  refine ⟨(Noted.readable_attach rm _ ns).mpr (readable_call kw fun x hx => ?_), name, ?_⟩
  · rcases List.mem_cons.mp hx with rfl | hx
    · exact readable_sym _
    · exact h x hx
  · exact utf8Text_toUTF8 name

theorem builds_addInclude {s : String} (hs : includeAllowed s = true) :
    Builds Fresh Fresh (addInclude (.str s)) := by
  refine builds_modify fun p hp => ?_
  split
  · exact hp
  · obtain ⟨⟨h, ht⟩, hsol⟩ := hp
    refine ⟨⟨⟨h.curried, h.solution, h.rest, fun x hx => ?_, h.constants, h.functions, h.steps,
      h.tail⟩, ht⟩, hsol⟩
    rcases List.mem_append.mp hx with hx | hx
    · exact h.includes x hx
    · exact ⟨s, List.mem_singleton.mp hx, hs⟩

theorem builds_defconstant (name : String) {v : Noted} (hv : v.Readable) :
    Builds Fresh Fresh (defconstant (.str name) (.tree v)) := by
  intro p hp
  obtain ⟨⟨h, ht⟩, hsol⟩ := hp
  let el := (call "defconstant" [sym name, v]).attach p.remarks p.pending
  refine ⟨(), { p with pending := [], remarks := el.2, constants := p.constants ++ [el.1] }, rfl,
    ⟨⟨h.curried, h.solution, h.rest, h.includes, fun x hx => ?_, h.functions, h.steps, h.tail⟩,
      ht⟩, hsol⟩
  rcases List.mem_append.mp hx with hx | hx
  · exact h.constants x hx
  · rw [List.mem_singleton.mp hx]
    exact declaration_attach "defconstant" name (fun y hy => by
      rw [List.mem_singleton.mp hy]
      exact hv) _ _

theorem mapM_symOf (ps : List String) :
    (ps.map Value.str).mapM symOf = .ok (ps.map sym) := by
  induction ps with
  | nil => rfl
  | cons q qs ih =>
    rw [List.map_cons, List.mapM_cons, ih]
    rfl

theorem builds_defun (name : String) (ps : List String) {b : Noted} (hb : b.Readable)
    (inline : Bool) : Builds Open Open (defun (.str name) (.list (ps.map .str)) (.tree b) inline) := by
  intro p hp
  obtain ⟨h, ht⟩ := hp
  let kw := if inline then "defun-inline" else "defun"
  let el := (Noted.ofList [sym kw, sym name, Noted.ofList (ps.map sym), b]).attach p.remarks p.pending
  have hps : (do (← (Value.list (ps.map .str)).iterate).mapM symOf) =
      (.ok (ps.map sym) : Except Failure (List Noted)) := mapM_symOf ps
  refine ⟨(), { p with pending := [], remarks := el.2, functions := p.functions ++ [el.1] }, ?_,
    ⟨h.curried, h.solution, h.rest, h.includes, h.constants, fun x hx => ?_, h.steps, h.tail⟩, ht⟩
  · simp only [defun, hps]
    rfl
  · rcases List.mem_append.mp hx with hx | hx
    · exact h.functions x hx
    · rw [List.mem_singleton.mp hx]
      refine declaration_attach kw name (fun y hy => ?_) _ _
      simp only [List.mem_cons, List.not_mem_nil, or_false] at hy
      rcases hy with rfl | rfl
      · exact Noted.readable_ofList (fun z hz => by
          obtain ⟨q, -, rfl⟩ := List.mem_map.mp hz
          exact readable_sym q) Noted.readable_nil
      · exact hb

theorem curriedNames_append (p : Puzzle) (x : Value) (v : Option Noted) :
    ({ p with curried := p.curried ++ [(x, v)] } : Puzzle).curriedNames = p.curriedNames ++ [x] := by
  simp [curriedNames]

theorem curriedParams_fresh : ∀ (names : List String) (p : Puzzle), p.Fresh →
    (∀ x ∈ p.curriedNames, ∀ n ∈ names, Value.equal x (.str n) = false) → names.Nodup →
      ∃ p', (curriedParams (names.map .str)).run p = .ok () p' ∧ p'.Fresh
  | [], p, hp, _, _ => ⟨p, rfl, hp⟩
  | n :: ns, p, hp, hnew, hnd => by
    obtain ⟨⟨h, ht⟩, hsol⟩ := hp
    have hnot : p.curriedNames.any (Value.equal · (.str n)) = false :=
      List.any_eq_false.mpr fun x hx => by simp [hnew x hx n List.mem_cons_self]
    let p1 : Puzzle := { p with curried := p.curried ++ [(.str n, none)] }
    have h1 : (curriedParam (.str n) none).run p = .ok () p1 := by
      simp only [curriedParam, EStateM.run_bind, EStateM.run_get, hnot]
      rfl
    have hp1 : p1.Fresh := by
      refine ⟨⟨⟨fun x hx => ?_, h.solution, h.rest, h.includes, h.constants, h.functions, h.steps,
        h.tail⟩, ht⟩, hsol⟩
      rw [curriedNames_append, List.mem_append] at hx
      rcases hx with hx | hx
      · exact h.curried x hx
      · exact ⟨n, List.mem_singleton.mp hx⟩
    have hnew1 : ∀ x ∈ p1.curriedNames, ∀ m ∈ ns, Value.equal x (.str m) = false := by
      intro x hx m hm
      rw [curriedNames_append, List.mem_append] at hx
      rcases hx with hx | hx
      · exact hnew x hx m (List.mem_cons_of_mem _ hm)
      · have hne : n ≠ m := fun e => (List.nodup_cons.mp hnd).1 (e ▸ hm)
        rw [List.mem_singleton.mp hx, equal_str]
        simpa using hne
    obtain ⟨p', h', hp'⟩ := curriedParams_fresh ns p1 hp1 hnew1 (List.nodup_cons.mp hnd).2
    refine ⟨p', ?_, hp'⟩
    rw [curriedParams, List.map_cons, List.forM, EStateM.run_bind, h1]
    exact h'

theorem builds_curriedParams {names : List String} (hnd : names.Nodup) :
    Builds (fun p => p.Fresh ∧ p.curried = []) Fresh (curriedParams (names.map .str)) := by
  intro p ⟨hp, hc⟩
  obtain ⟨p', h', hp'⟩ := curriedParams_fresh names p hp (by simp [curriedNames, hc]) hnd
  exact ⟨(), p', h', hp'⟩

theorem solutionParams_open : ∀ (names : List String) (p : Puzzle), p.Open →
    (∀ x ∈ p.solution, ∀ n ∈ names, Value.itemEq (.str n) x = false) → names.Nodup →
      ∃ p', (solutionParams (names.map .str)).run p = .ok () p' ∧ p'.Open
  | [], p, hp, _, _ => ⟨p, rfl, hp⟩
  | n :: ns, p, hp, hnew, hnd => by
    obtain ⟨h, ht⟩ := hp
    have hnot : p.solution.any (Value.itemEq (.str n)) = false :=
      List.any_eq_false.mpr fun x hx => by simp [hnew x hx n List.mem_cons_self]
    let p1 : Puzzle := { p with solution := p.solution ++ [.str n] }
    have hp1 : p1.Open := by
      refine ⟨⟨h.curried, fun x hx => ?_, h.rest, h.includes, h.constants, h.functions, h.steps,
        h.tail⟩, ht⟩
      rcases List.mem_append.mp hx with hx | hx
      · exact h.solution x hx
      · exact ⟨n, List.mem_singleton.mp hx⟩
    have hnew1 : ∀ x ∈ p1.solution, ∀ m ∈ ns, Value.itemEq (.str m) x = false := by
      intro x hx m hm
      rcases List.mem_append.mp hx with hx | hx
      · exact hnew x hx m (List.mem_cons_of_mem _ hm)
      · have hne : m ≠ n := fun e => (List.nodup_cons.mp hnd).1 (e ▸ hm)
        rw [List.mem_singleton.mp hx, itemEq_str]
        simpa using hne
    obtain ⟨p', h', hp'⟩ := solutionParams_open ns p1 hp1 hnew1 (List.nodup_cons.mp hnd).2
    refine ⟨p', ?_, hp'⟩
    rw [solutionParams, List.map_cons, List.forM]
    simp only [EStateM.run_bind, EStateM.run_get, hnot]
    exact h'

theorem builds_solutionParams {names : List String} (hnd : names.Nodup) :
    Builds Fresh Open (solutionParams (names.map .str)) := by
  intro p ⟨hp, hs⟩
  obtain ⟨p', h', hp'⟩ := solutionParams_open names p hp (by simp [hs]) hnd
  exact ⟨(), p', h', hp'⟩

theorem Sound.endWith {p : Puzzle} (h : p.Sound) {v : Noted} (hv : v.Readable) :
    (p.endWith v).Sound := by
  unfold Puzzle.endWith
  split
  · exact ⟨h.curried, h.solution, h.rest, h.includes, h.constants, h.functions, h.steps,
      fun t ht => by cases ht; exact hv⟩
  · exact ⟨h.curried, h.solution, h.rest, h.includes, h.constants, h.functions, h.steps,
      fun t ht => by cases ht; exact (Noted.readable_withTag _).mpr hv⟩

theorem builds_returns {v : Noted} (hv : v.Readable) : Builds Open Sound (returns (.tree v)) := by
  intro p ⟨h, ht⟩
  let q : Puzzle := { p with steps := p.steps ++ [(p.pending, .stop)], pending := [] }
  have hq : q.Sound := by
    refine ⟨h.curried, h.solution, h.rest, h.includes, h.constants, h.functions, fun st hst => ?_,
      h.tail⟩
    rcases List.mem_append.mp hst with hst | hst
    · exact h.steps st hst
    · rw [List.mem_singleton.mp hst]
  refine ⟨(), q.endWith v, ?_, hq.endWith hv⟩
  simp only [returns, step, EStateM.run_bind, EStateM.run_get, ht]
  rfl

theorem builds_comment (text : Value) : Builds Open Open (comment text) :=
  builds_modify fun _ ⟨h, ht⟩ =>
    ⟨⟨h.curried, h.solution, h.rest, h.includes, h.constants, h.functions, h.steps, h.tail⟩, ht⟩

theorem builds_restParam (s : String) : Builds Open Open (restParam (.str s)) :=
  builds_modify fun _ ⟨h, ht⟩ =>
    ⟨⟨h.curried, h.solution, .inr ⟨s, rfl⟩, h.includes, h.constants, h.functions, h.steps, h.tail⟩,
      ht⟩

/-! ### A sound puzzle builds -/

theorem mapM_ok_of_forall {γ δ : Type} {f : γ → Except Failure δ} :
    ∀ {xs : List γ}, (∀ x ∈ xs, ∃ y, f x = .ok y) → ∃ ys, xs.mapM f = .ok ys
  | [], _ => ⟨[], rfl⟩
  | x :: xs, h => by
    obtain ⟨y, hy⟩ := h x List.mem_cons_self
    obtain ⟨ys, hys⟩ := mapM_ok_of_forall fun z hz => h z (List.mem_cons_of_mem _ hz)
    refine ⟨y :: ys, ?_⟩
    rw [List.mapM_cons, hy, hys]
    rfl

theorem buildSteps_stop : ∀ (steps : List (List String × Step)) (next : Noted) (rm : Remarks),
    (∀ st ∈ steps, st.2 = .stop) → next.Readable →
      ∃ n rm', (buildSteps steps next).run rm = .ok n rm' ∧ n.Readable
  | [], next, rm, _, hn => ⟨next, rm, rfl, hn⟩
  | (notes, s) :: rest, next, rm, hs, hn => by
    obtain ⟨r, rm1, h1, hr⟩ :=
      buildSteps_stop rest next rm (fun st h => hs st (List.mem_cons_of_mem _ h)) hn
    have hstop : s = .stop := hs _ List.mem_cons_self
    subst hstop
    refine ⟨(r.attach rm1 notes).1, (r.attach rm1 notes).2, ?_, (Noted.readable_attach _ _ _).mpr hr⟩
    rw [buildSteps, EStateM.run_bind, h1]
    rfl

theorem buildBody_sound {p : Puzzle} (h : p.Sound) :
    ∃ n rm, (buildBody Noted.nil).run p = .ok n { p with remarks := rm } ∧ n.Readable := by
  have htail : (p.tail.getD Noted.nil).Readable := by
    cases ht : p.tail with
    | none => exact Noted.readable_nil
    | some t => exact h.tail t ht
  obtain ⟨n, rm, h1, hn⟩ := buildSteps_stop p.steps _ p.remarks h.steps htail
  refine ⟨n, rm, ?_, hn⟩
  simp only [buildBody, EStateM.run_bind, EStateM.run_get, body, Body.build, h1]
  rfl

theorem declared_sound {p : Puzzle} (h : p.Sound) : ∃ names, p.declared = .ok names := by
  have hkey : ∀ xs : List Value, (∀ x ∈ xs, ∃ s : String, x = .str s) →
      ∃ ys, xs.mapM Value.asKey = .ok ys := fun xs hxs =>
    mapM_ok_of_forall fun x hx => by
      obtain ⟨s, rfl⟩ := hxs x hx
      exact ⟨_, rfl⟩
  obtain ⟨cur, hcur⟩ := hkey _ h.curried
  obtain ⟨sol, hsol⟩ := hkey _ h.solution
  obtain ⟨decls, hdecls⟩ := @mapM_ok_of_forall _ _ declName (p.constants ++ p.functions)
    fun el hel => by
      rcases List.mem_append.mp hel with hel | hel
      · exact (h.constants el hel).2
      · exact (h.functions el hel).2
  rcases h.rest with hr | ⟨s, hr⟩
  · exact ⟨_, by simp only [declared, hcur, hsol, hr, hdecls]; rfl⟩
  · exact ⟨_, by simp only [declared, hcur, hsol, hr, hdecls]; rfl⟩

theorem foldl_needed (found : List String) (hf : ∀ q ∈ found, isKnownInclude q = true) :
    ∀ acc : List Value, (∀ x ∈ acc, ∃ s : String, x = .str s ∧ includeAllowed s = true) →
      ∀ x ∈ found.foldl (fun acc x =>
        if acc.any (Value.itemEq (.str x)) then acc else acc ++ [.str x]) acc,
        ∃ s : String, x = .str s ∧ includeAllowed s = true := by
  induction found with
  | nil => exact fun acc hacc => hacc
  | cons q qs ih =>
    intro acc hacc
    refine ih (fun r hr => hf r (List.mem_cons_of_mem _ hr)) _ fun x hx => ?_
    dsimp only at hx
    split at hx
    · exact hacc x hx
    · rcases List.mem_append.mp hx with hx | hx
      · exact hacc x hx
      · refine ⟨q, List.mem_singleton.mp hx, ?_⟩
        simp [includeAllowed, hf q List.mem_cons_self]

theorem includesFor_sound {p : Puzzle} (h : p.Sound) {body : Noted} (hb : body.Readable) :
    ∃ incs, p.includesFor body = .ok incs ∧
      ∀ x ∈ incs, ∃ s : String, x = .str s ∧ includeAllowed s = true := by
  obtain ⟨names, hnames⟩ := declared_sound h
  have hread : ∀ t ∈ p.constants ++ p.functions ++ [body], t.Readable := by
    intro t ht
    simp only [List.mem_append, List.mem_singleton] at ht
    rcases ht with (ht | ht) | rfl
    · exact (h.constants t ht).1
    · exact (h.functions t ht).1
    · exact hb
  obtain ⟨found, hfound, hknown⟩ := autoIncludes_ok hread (declaredTexts names)
  refine ⟨_, ?_, foldl_needed found hknown p.includes h.includes⟩
  simp only [includesFor, hnames, bind, Except.bind, hfound]
  rfl

theorem paramsElement_sound {p : Puzzle} (h : p.Sound) : ∃ el, p.paramsElement = .ok el := by
  obtain ⟨names, hnames⟩ := @mapM_ok_of_forall _ _ symOf (p.curriedNames ++ p.solution)
    fun x hx => by
      rcases List.mem_append.mp hx with hx | hx
      · obtain ⟨s, rfl⟩ := h.curried x hx
        exact ⟨_, rfl⟩
      · obtain ⟨s, rfl⟩ := h.solution x hx
        exact ⟨_, rfl⟩
  rcases h.rest with hr | ⟨s, hr⟩
  · exact ⟨_, by simp only [paramsElement, hr, hnames]; rfl⟩
  · exact ⟨_, by simp only [paramsElement, hr, hnames]; rfl⟩

theorem build_sound {p : Puzzle} (h : p.Sound) :
    ∃ el rm, build.run p = .ok el { p with remarks := rm } := by
  obtain ⟨body, rm, hbody, hb⟩ := buildBody_sound h
  have h' := h.withRemarks rm
  obtain ⟨incs, hincs, hallowed⟩ := includesFor_sound h' hb
  obtain ⟨paths, hpaths⟩ := @mapM_ok_of_forall _ _ checkInclude incs fun x hx => by
    obtain ⟨s, rfl, hs⟩ := hallowed x hx
    exact ⟨s, by simp [checkInclude, hs]⟩
  obtain ⟨params, hparams⟩ := paramsElement_sound h'
  refine ⟨Noted.ofList ([sym "mod", params] ++ paths.map (fun i => call "include" [sym i]) ++
    p.constants ++ p.functions ++ [body]), rm, ?_⟩
  simp only [build, EStateM.run_bind, hbody, EStateM.run_get]
  simp only [hincs, bind, Except.bind, hpaths, hparams]
  rfl

theorem includeList_sound {p : Puzzle} (h : p.Sound) :
    ∃ incs rm, includeList.run p = .ok incs { p with remarks := rm } := by
  obtain ⟨body, rm, hbody, hb⟩ := buildBody_sound h
  obtain ⟨incs, hincs, -⟩ := includesFor_sound (h.withRemarks rm) hb
  refine ⟨incs, rm, ?_⟩
  simp only [includeList, EStateM.run_bind, hbody, EStateM.run_get, hincs]
  rfl

end Puzzle

end PuzzleKit.Build
