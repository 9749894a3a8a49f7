import PuzzleKit.Proofs.Serialization
import PuzzleKit.Failure

/-!
# Decoding accepts exactly the encodings

`Encodes bs t` is the grammar of the binary encoding: a pair is `0xff` and the encodings of its
parts, the empty atom is `0x80`, a byte up to `0x7f` is its own atom, and any other atom is a
size prefix of `w ≤ 5` bytes followed by as many bytes as the prefix says. The prefix's first
byte starts with `w` one bits and a zero bit (`PrefixByte`); its other bits and the `w - 1`
bytes after it hold the length, big-endian. Unlike writing, the grammar takes every prefix
width, also one wider than the length needs.

Reading a tree consumes exactly one encoding (`encodes_of_readTree`, `readTree_of_encodes`),
so decoding succeeds exactly on the encodings, with the tree they encode
(`deserialize_eq_ok_iff`); every other input is refused with a value fault.

The same decoding written as a loop over two stacks, a stack of tasks (read a tree, join two
trees into a pair) and a stack of values, gives the same answer on every input
(`decodeWithStacks_eq`): a join always finds two values, and exactly one value is left at the
end, so the loop fails only with the faults of decoding.
-/

namespace PuzzleKit

/-! ### Size prefixes -/

/-- The first byte of a size prefix `w` bytes wide: `w` one bits, then a zero bit. -/
def PrefixByte (w : Nat) (c : UInt8) : Prop := c.toNat / 2 ^ (7 - w) = 2 ^ (w + 1) - 2

set_option synthInstance.maxSize 1000 in
theorem prefixWidth_of_marker : ∀ n < 256, ∀ w < 6, 1 ≤ w → n / 2 ^ (7 - w) = 2 ^ (w + 1) - 2 →
    128 ≤ n ∧ n < 252 ∧ prefixWidth n = (w, n % 2 ^ (7 - w)) := by
  decide +kernel

theorem marker_of_prefixWidth : ∀ n < 256, 128 ≤ n → (prefixWidth n).1 ≤ 5 →
    1 ≤ (prefixWidth n).1 ∧ n / 2 ^ (7 - (prefixWidth n).1) = 2 ^ ((prefixWidth n).1 + 1) - 2 ∧
      (prefixWidth n).2 = n % 2 ^ (7 - (prefixWidth n).1) := by
  decide +kernel

theorem prefixByte_iff {w : Nat} {c : UInt8} (hw : 1 ≤ w) (hw5 : w ≤ 5) :
    PrefixByte w c ↔ 128 ≤ c.toNat ∧ prefixWidth c.toNat = (w, c.toNat % 2 ^ (7 - w)) := by
  constructor
  · intro h
    obtain ⟨h128, -, hpw⟩ := prefixWidth_of_marker c.toNat c.toNat_lt w (by omega) hw h
    exact ⟨h128, hpw⟩
  · rintro ⟨h128, hpw⟩
    have h := marker_of_prefixWidth c.toNat c.toNat_lt h128 (by rw [hpw]; exact hw5)
    rw [hpw] at h
    exact h.2.1

/-! ### The grammar -/

/-- The encodings of trees. Decoded atoms get the guessed hint, except the empty atom written
as `0x80`, which is the byte string's own. -/
inductive Encodes : List UInt8 → Tree → Prop
  | pair {a b : List UInt8} {f r : Tree} :
      Encodes a f → Encodes b r → Encodes (0xff :: (a ++ b)) (.cons f r)
  | nil : Encodes [0x80] (.atom [] .bytes)
  | small {x : UInt8} : x.toNat ≤ 0x7f → Encodes [x] (Tree.guess [x])
  | sized {w : Nat} {c : UInt8} {more body : List UInt8} : 1 ≤ w → w ≤ 5 → PrefixByte w c →
      c ≠ 0x80 → more.length = w - 1 →
      body.length = c.toNat % 2 ^ (7 - w) * 256 ^ (w - 1) + Bytes.ofBE more →
      Encodes (c :: (more ++ body)) (Tree.guess body)

/-! ### Reading one encoding -/

theorem takeBytes_eq_ok {bs x y : List UInt8} {i n : Nat} (h : takeBytes bs i n = .ok (x, y)) :
    n ≤ bs.length ∧ x = bs.take n ∧ y = bs.drop n := by
  unfold takeBytes at h
  split at h
  · cases h
    exact ⟨‹_›, rfl, rfl⟩
  · cases h

theorem ofBE_low_cons {w : Nat} (c : UInt8) (more : List UInt8) (hw : 1 ≤ w)
    (hmore : more.length = w - 1) :
    Bytes.ofBE (UInt8.ofNat (c.toNat % 2 ^ (7 - w)) :: more) =
      c.toNat % 2 ^ (7 - w) * 256 ^ (w - 1) + Bytes.ofBE more := by
  have hlow : c.toNat % 2 ^ (7 - w) < 256 :=
    lt_of_lt_of_le (Nat.mod_lt _ (Nat.pow_pos (by decide)))
      (le_trans (Nat.pow_le_pow_right (by decide) (by omega : 7 - w ≤ 8)) (by decide))
  rw [Bytes.ofBE_cons, hmore, UInt8.toNat_ofNat', Nat.mod_eq_of_lt hlow]

theorem encodes_of_readAtom {c : UInt8} {bs rest : List UInt8} {i j : Nat} {t : Tree}
    (h : readAtom c bs i = .ok (t, rest, j)) :
    ∃ e, bs = e ++ rest ∧ Encodes (c :: e) t ∧ j = i + e.length := by
  unfold readAtom at h
  split at h
  · -- the empty atom's own byte
    next h80 =>
    cases h
    exact ⟨[], rfl, h80 ▸ .nil, rfl⟩
  split at h
  · next h80 hsmall =>
    cases h
    exact ⟨[], rfl, .small hsmall, rfl⟩
  · next h80 hsmall =>
    rcases hpw : prefixWidth c.toNat with ⟨w, low⟩
    simp only [hpw] at h
    split at h
    · cases h
    next hw5 =>
    cases hmore : takeBytes bs i (w - 1) with
    | error e => simp [hmore, bind, Except.bind] at h
    | ok p =>
      obtain ⟨more, bs1⟩ := p
      cases hbody : takeBytes bs1 (i + (w - 1)) (Bytes.ofBE (UInt8.ofNat low :: more)) with
      | error e => simp [hmore, hbody, bind, Except.bind] at h
      | ok q =>
        obtain ⟨body, bs2⟩ := q
        simp only [hmore, hbody, bind, Except.bind, Except.ok.injEq, Prod.mk.injEq] at h
        obtain ⟨rfl, rfl, rfl⟩ := h
        obtain ⟨hlen1, rfl, rfl⟩ := takeBytes_eq_ok hmore
        obtain ⟨hlen2, rfl, rfl⟩ := takeBytes_eq_ok hbody
        have h128 : 128 ≤ c.toNat := by omega
        obtain ⟨hw, hmark, hlow⟩ := marker_of_prefixWidth c.toNat c.toNat_lt h128 (by rw [hpw]; omega)
        rw [hpw] at hw hmark hlow
        simp only at hw hmark hlow
        have hmlen : (bs.take (w - 1)).length = w - 1 := by simp; omega
        refine ⟨bs.take (w - 1) ++
          (bs.drop (w - 1)).take (Bytes.ofBE (UInt8.ofNat low :: bs.take (w - 1))), ?_, ?_, ?_⟩
        · rw [List.append_assoc, List.take_append_drop, List.take_append_drop]
        · refine .sized hw (by omega) hmark h80 hmlen ?_
          rw [hlow] at hlen2 ⊢
          rw [← ofBE_low_cons c _ hw hmlen]
          simp only [List.length_take]
          omega
        · simp only [List.length_append, List.length_take]
          omega

theorem readTree_atom {c : UInt8} (hc : c ≠ 0xff) (n : Nat) (bs : List UInt8) (i : Nat) :
    readTree (n + 1) (c :: bs) i = readAtom c bs (i + 1) := by
  rw [readTree, if_neg hc]

theorem readTree_pair_eq_ok {n : Nat} {bs rest : List UInt8} {i j : Nat} {t : Tree}
    (h : readTree (n + 1) (0xff :: bs) i = .ok (t, rest, j)) :
    ∃ f r bs1 i1, readTree n bs (i + 1) = .ok (f, bs1, i1) ∧ readTree n bs1 i1 = .ok (r, rest, j) ∧
      t = .cons f r := by
  rw [readTree, if_pos rfl] at h
  cases hf : readTree n bs (i + 1) with
  | error e => simp [hf, bind, Except.bind] at h
  | ok p =>
    obtain ⟨f, bs1, i1⟩ := p
    cases hr : readTree n bs1 i1 with
    | error e => simp [hf, hr, bind, Except.bind] at h
    | ok q =>
      obtain ⟨r, bs2, i2⟩ := q
      simp only [hf, hr, bind, Except.bind, Except.ok.injEq, Prod.mk.injEq] at h
      obtain ⟨rfl, rfl, rfl⟩ := h
      exact ⟨f, r, bs1, i1, rfl, hr, rfl⟩

theorem readTree_pair_eq_error {n : Nat} {bs : List UInt8} {i : Nat} {e : DecodeError}
    (h : readTree (n + 1) (0xff :: bs) i = .error e) :
    readTree n bs (i + 1) = .error e ∨
      ∃ f bs1 i1, readTree n bs (i + 1) = .ok (f, bs1, i1) ∧ readTree n bs1 i1 = .error e := by
  rw [readTree, if_pos rfl] at h
  cases hf : readTree n bs (i + 1) with
  | error e' =>
    simp only [hf, bind, Except.bind, Except.error.injEq] at h
    exact .inl (h ▸ rfl)
  | ok p =>
    obtain ⟨f, bs1, i1⟩ := p
    cases hr : readTree n bs1 i1 with
    | error e' =>
      simp only [hf, hr, bind, Except.bind, Except.error.injEq] at h
      exact .inr ⟨f, bs1, i1, rfl, h ▸ hr⟩
    | ok q => simp [hf, hr, bind, Except.bind] at h

/-- Whatever `readTree` reads is one encoding, followed by the bytes it leaves; the induction
is on the fuel, which bounds the depth of pairs. -/
theorem encodes_of_readTree : ∀ (n : Nat) (bs : List UInt8) (i : Nat) {t : Tree}
    {rest : List UInt8} {j : Nat}, readTree n bs i = .ok (t, rest, j) →
    ∃ e, bs = e ++ rest ∧ Encodes e t ∧ j = i + e.length
  | 0, _, _, _, _, _, h => by simp [readTree] at h
  | _ + 1, [], _, _, _, _, h => by simp [readTree] at h
  | n + 1, c :: bs, i, t, rest, j, h => by
    by_cases hc : c = 0xff
    · subst hc
      obtain ⟨f, r, bs1, i1, hf, hr, rfl⟩ := readTree_pair_eq_ok h
      obtain ⟨ef, rfl, hef, rfl⟩ := encodes_of_readTree n bs (i + 1) hf
      obtain ⟨er, rfl, her, rfl⟩ := encodes_of_readTree n _ _ hr
      refine ⟨0xff :: (ef ++ er), by simp, .pair hef her, ?_⟩
      simp only [List.length_cons, List.length_append]
      omega
    · rw [readTree_atom hc] at h
      obtain ⟨e, rfl, he, rfl⟩ := encodes_of_readAtom h
      exact ⟨c :: e, rfl, he, by simp; omega⟩

/-- An encoding followed by anything reads as its tree, leaving the rest, given fuel for as
many steps as it has bytes. -/
theorem readTree_of_encodes {e : List UInt8} {t : Tree} (h : Encodes e t) :
    ∀ (n : Nat) (rest : List UInt8) (i : Nat), e.length ≤ n →
      readTree n (e ++ rest) i = .ok (t, rest, i + e.length) := by
  induction h with
  | @pair a b f r _ _ iha ihb =>
    intro n rest i hn
    obtain ⟨m, rfl⟩ : ∃ m, n = m + 1 := ⟨n - 1, by simp at hn; omega⟩
    simp only [List.length_cons, List.length_append] at hn
    rw [List.cons_append, List.append_assoc, readTree, if_pos rfl]
    simp only [iha m (b ++ rest) (i + 1) (by omega), ihb m rest (i + 1 + a.length) (by omega),
      bind, Except.bind, List.length_cons, List.length_append]
    rw [show i + 1 + a.length + b.length = i + (a.length + b.length + 1) by omega]
  | nil =>
    intro n rest i hn
    obtain ⟨m, rfl⟩ : ∃ m, n = m + 1 := ⟨n - 1, by simp at hn; omega⟩
    rfl
  | @small x hx =>
    intro n rest i hn
    obtain ⟨m, rfl⟩ : ∃ m, n = m + 1 := ⟨n - 1, by simp at hn; omega⟩
    have hff : x ≠ 0xff := fun h => by rw [h] at hx; simp at hx
    have h80 : x ≠ 0x80 := fun h => by rw [h] at hx; simp at hx
    simp only [List.cons_append, List.nil_append, readTree, if_neg hff, readAtom, if_neg h80,
      if_pos hx, List.length_singleton]
  | @sized w c more body hw hw5 hmark h80 hmore hbody =>
    intro n rest i hn
    obtain ⟨m, rfl⟩ : ∃ m, n = m + 1 := ⟨n - 1, by simp at hn; omega⟩
    obtain ⟨h128, hpw⟩ := (prefixByte_iff hw hw5).mp hmark
    have hff : c ≠ 0xff := fun h => by
      have := (prefixWidth_of_marker c.toNat c.toNat_lt w (by omega) hw hmark).2.1
      rw [h] at this
      simp at this
    have hsmall : ¬ c.toNat ≤ 0x7f := by omega
    rw [List.cons_append, readTree, if_neg hff]
    unfold readAtom
    simp only [if_neg h80, if_neg hsmall, hpw, if_neg (show ¬ w > 5 by omega)]
    rw [List.append_assoc, ← hmore, takeBytes_append]
    simp only [bind, Except.bind]
    rw [hmore, ofBE_low_cons c more hw hmore, ← hbody, takeBytes_append]
    simp only [List.length_cons, List.length_append]
    rw [show i + 1 + (w - 1) + body.length = i + (more.length + body.length + 1) by omega]

/-- Decoding succeeds exactly on the encodings, with the tree they encode. -/
theorem deserialize_eq_ok_iff (bs : List UInt8) (t : Tree) :
    Tree.deserialize bs = .ok t ↔ Encodes bs t := by
  constructor
  · intro h
    cases hread : readTree (bs.length + 1) bs 0 with
    | error e => simp [Tree.deserialize, hread, bind, Except.bind] at h
    | ok p =>
      obtain ⟨t', rest, j⟩ := p
      obtain ⟨e, hbs, he, rfl⟩ := encodes_of_readTree _ _ _ hread
      simp only [Tree.deserialize, hread, bind, Except.bind] at h
      split at h
      · next hj =>
        cases h
        -- the whole input was read, so nothing is left after the encoding
        have hrest : rest = [] := by
          rw [hbs, List.length_append] at hj
          exact List.eq_nil_of_length_eq_zero (by omega)
        rw [hbs, hrest, List.append_nil]
        exact he
      · cases h
  · intro h
    have hread := readTree_of_encodes h (bs.length + 1) [] 0 (Nat.le_succ _)
    rw [List.append_nil, Nat.zero_add] at hread
    simp [Tree.deserialize, hread, bind, Except.bind]

/-- A byte below `0x80` written behind a size prefix it does not need is read all the same. -/
example : Tree.deserialize [0x81, 0x05] = .ok (Tree.guess [0x05]) := by rfl

/-! ### The loop over two stacks -/

/-- A task of the reading loop. -/
inductive Task where
  | read
  | join
  deriving DecidableEq, Repr

/-- Why the reading loop stops without a tree: a decoding fault, a join with fewer than two
values, or not exactly one value left at the end. -/
inductive LoopFault where
  | decode (e : DecodeError)
  | emptyPop
  | notOne
  deriving Repr

/-- The reading loop's state: the bytes not read yet and their position, the tasks to do
(the next on top) and the values read (the last on top). -/
structure Decoder where
  rest : List UInt8
  pos : Nat
  todo : List Task
  vals : List Tree

namespace Decoder

/-- One turn of the loop. A read takes a byte: the pair marker schedules two reads and the join
of their values, any other byte starts an atom. A join pops the second part, then the
first. -/
def step (d : Decoder) : Except LoopFault Decoder :=
  match d.todo, d.rest with
  | [], _ => .ok d
  | .read :: _, [] => .error (.decode (.truncated d.pos))
  | .read :: todo, c :: bs =>
    if c = 0xff then .ok ⟨bs, d.pos + 1, .read :: .read :: .join :: todo, d.vals⟩
    else
      match readAtom c bs (d.pos + 1) with
      | .ok (t, bs', j) => .ok ⟨bs', j, todo, t :: d.vals⟩
      | .error e => .error (.decode e)
  | .join :: todo, _ =>
    match d.vals with
    | r :: f :: vals => .ok ⟨d.rest, d.pos, todo, .cons f r :: vals⟩
    | _ => .error .emptyPop

/-- What the loop has left to do: three for each unread byte and one for each task. -/
def measure (d : Decoder) : Nat := 3 * d.rest.length + d.todo.length

theorem measure_step {d d' : Decoder} (hd : d.todo ≠ []) (h : d.step = .ok d') :
    d'.measure < d.measure := by
  obtain ⟨rest, pos, todo, vals⟩ := d
  unfold step at h
  simp only at h hd
  split at h
  · exact absurd rfl hd
  · cases h
  · split at h
    · cases h
      simp [measure]
      omega
    · split at h
      · next hread =>
        cases h
        obtain ⟨e, rfl, -, -⟩ := encodes_of_readAtom hread
        simp [measure]
        omega
      · cases h
  · split at h
    · cases h
      simp [measure]
    · cases h

/-- The loop: turns until no task is left. -/
def run (d : Decoder) : Except LoopFault Decoder :=
  if hd : d.todo = [] then .ok d
  else
    match h : d.step with
    | .ok d' =>
      have : d'.measure < d.measure := measure_step hd h
      run d'
    | .error e => .error e
termination_by d.measure

theorem run_of_todo_ne_nil {d : Decoder} (hd : d.todo ≠ []) :
    d.run = d.step.bind run := by
  rw [run, dif_neg hd]
  split <;> simp_all [Except.bind]

theorem run_join (rest : List UInt8) (pos : Nat) (todo : List Task) (f r : Tree)
    (vals : List Tree) :
    run ⟨rest, pos, .join :: todo, r :: f :: vals⟩ = run ⟨rest, pos, todo, .cons f r :: vals⟩ := by
  rw [run_of_todo_ne_nil (by simp)]
  rfl

theorem run_read_of_readTree : ∀ (n : Nat) (bs : List UInt8) (i : Nat) {t : Tree}
    {rest : List UInt8} {j : Nat} (todo : List Task) (vals : List Tree),
    readTree n bs i = .ok (t, rest, j) →
    run ⟨bs, i, .read :: todo, vals⟩ = run ⟨rest, j, todo, t :: vals⟩
  | 0, _, _, _, _, _, _, _, h => by simp [readTree] at h
  | _ + 1, [], _, _, _, _, _, _, h => by simp [readTree] at h
  | n + 1, c :: bs, i, t, rest, j, todo, vals, h => by
    rw [run_of_todo_ne_nil (by simp)]
    by_cases hc : c = 0xff
    · -- a pair: both parts are read in turn, then joined
      subst hc
      obtain ⟨f, r, bs1, i1, hf, hr, rfl⟩ := readTree_pair_eq_ok h
      show run ⟨bs, i + 1, .read :: .read :: .join :: todo, vals⟩ = _
      rw [run_read_of_readTree n bs (i + 1) (.read :: .join :: todo) vals hf,
        run_read_of_readTree n bs1 i1 (.join :: todo) (f :: vals) hr, run_join]
    · rw [readTree_atom hc] at h
      simp only [step, if_neg hc, h]
      rfl

theorem run_read_of_readTree_error : ∀ (n : Nat) (bs : List UInt8) (i : Nat) {e : DecodeError}
    (todo : List Task) (vals : List Tree), bs.length < n → readTree n bs i = .error e →
    run ⟨bs, i, .read :: todo, vals⟩ = .error (.decode e)
  | 0, _, _, _, _, _, hn, _ => absurd hn (Nat.not_lt_zero _)
  | _ + 1, [], i, e, todo, vals, _, h => by
    simp only [readTree, Except.error.injEq] at h
    subst h
    rw [run_of_todo_ne_nil (by simp)]
    rfl
  | n + 1, c :: bs, i, e, todo, vals, hn, h => by
    rw [run_of_todo_ne_nil (by simp)]
    simp only [List.length_cons] at hn
    by_cases hc : c = 0xff
    · subst hc
      show run ⟨bs, i + 1, .read :: .read :: .join :: todo, vals⟩ = _
      rcases readTree_pair_eq_error h with hf | ⟨f, bs1, i1, hf, hr⟩
      · exact run_read_of_readTree_error n bs (i + 1) _ vals (by omega) hf
      · -- the first part is read; the second part, from fewer bytes, is refused
        obtain ⟨ef, rfl, -, -⟩ := encodes_of_readTree n bs (i + 1) hf
        rw [run_read_of_readTree n _ (i + 1) (.read :: .join :: todo) vals hf]
        exact run_read_of_readTree_error n bs1 i1 _ (f :: vals)
          (by simp only [List.length_append] at hn; omega) hr
    · rw [readTree_atom hc] at h
      simp only [step, if_neg hc, h]
      rfl

end Decoder

/-- Decoding as a loop over a stack of tasks and a stack of values: the loop, then the check
that every byte was read, then the check that exactly one value is left. -/
def Tree.decodeWithStacks (bs : List UInt8) : Except LoopFault Tree := do
  let d ← Decoder.run ⟨bs, 0, [.read], []⟩
  if d.pos ≠ bs.length then throw (.decode (.trailing d.pos bs.length))
  match d.vals with
  | [t] => pure t
  | _ => throw .notOne

/-- The loop over two stacks decodes as `Tree.deserialize` does, and fails with its faults:
its stacks never run short and it never ends with other than one value. -/
theorem decodeWithStacks_eq (bs : List UInt8) :
    Tree.decodeWithStacks bs = (Tree.deserialize bs).mapError LoopFault.decode := by
  cases hread : readTree (bs.length + 1) bs 0 with
  | error e =>
    have hrun := Decoder.run_read_of_readTree_error _ bs 0 [] [] (Nat.lt_succ_self _) hread
    simp [Tree.decodeWithStacks, Tree.deserialize, hrun, hread, bind, Except.bind,
      Except.mapError]
  | ok p =>
    obtain ⟨t, rest, j⟩ := p
    have hrun := Decoder.run_read_of_readTree _ bs 0 [] [] hread
    have hdone : Decoder.run ⟨rest, j, [], [t]⟩ = .ok ⟨rest, j, [], [t]⟩ := by
      rw [Decoder.run, dif_pos rfl]
    simp only [Tree.decodeWithStacks, Tree.deserialize, hrun, hdone, hread, bind, Except.bind]
    by_cases hj : j = bs.length <;> simp [hj, Except.mapError, throw, throwThe, MonadExceptOf.throw]
    rfl

/-- Decoding accepts exactly the encodings: it succeeds exactly on the byte strings that are
one encoding of a tree, with that tree; on every other byte string it fails with a value
fault; and the loop over two stacks that reads it gives the same answer, so no join finds
fewer than two values and no run ends with other than one. -/
theorem deserialize_accepts_exactly_encodings (bs : List UInt8) :
    (∀ t, Tree.deserialize bs = .ok t ↔ Encodes bs t) ∧
    ((∀ t, ¬ Encodes bs t) →
      ∃ e, Tree.deserialize bs = .error e ∧ (Failure.ofDecode e).kind = .badValue) ∧
    Tree.decodeWithStacks bs = (Tree.deserialize bs).mapError LoopFault.decode := by
  refine ⟨deserialize_eq_ok_iff bs, fun hnone => ?_, decodeWithStacks_eq bs⟩
  cases h : Tree.deserialize bs with
  | error e => exact ⟨e, rfl, rfl⟩
  | ok t => exact absurd ((deserialize_eq_ok_iff bs t).mp h) (hnone t)

end PuzzleKit
