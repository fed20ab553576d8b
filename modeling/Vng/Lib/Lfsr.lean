import Mathlib.Data.List.Basic
import Mathlib.Tactic.Common

/-!
# A bit-serial CRC register

The shift register of a cyclic redundancy check over `BitVec w`: message bits are shifted in
one by one, most significant bit of the register first, and the generator `g` (without its
leading term) is added whenever the bit that leaves differs from the bit that enters.

* `feed_xor`: the register is linear in its state and in the message together;
* `feed_eq_shiftLeft_xor`: the leading bits of the state meet the message, the others move up;
  this is what a table-driven implementation rests on;
* `feed_zeros_eq_zero`: if `g` has a constant term, feeding zeros loses nothing;
* `feed_zero_eq_zero`: at most `w` bits that bring a cleared register back to zero are all zero.
-/

namespace Lfsr

variable {w : ℕ}

/-- One shift of the register `s` with generator `g`, taking in the message bit `b`. -/
def bitStep (g s : BitVec w) (b : Bool) : BitVec w :=
  if s.msb ^^ b then (s <<< 1) ^^^ g else s <<< 1

/-- The register after the message `l`. -/
def feed (g s : BitVec w) (l : List Bool) : BitVec w := l.foldl (bitStep g) s

@[simp] lemma feed_nil (g s : BitVec w) : feed g s [] = s := rfl

@[simp] lemma feed_cons (g s : BitVec w) (b : Bool) (l : List Bool) :
    feed g s (b :: l) = feed g (bitStep g s b) l := rfl

/-- The register goes on from where the first bits have left it. -/
lemma feed_append (g s : BitVec w) (l m : List Bool) :
    feed g s (l ++ m) = feed g (feed g s l) m := List.foldl_append

/-! ## Linearity -/

/-- A step is linear. -/
lemma bitStep_xor (g s t : BitVec w) (b c : Bool) :
    bitStep g (s ^^^ t) (b ^^ c) = bitStep g s b ^^^ bitStep g t c := by
  have hshift : (s ^^^ t) <<< 1 = (s <<< 1) ^^^ (t <<< 1) := BitVec.shiftLeft_xor_distrib s t 1
  have hbit : ((s ^^^ t).msb ^^ (b ^^ c)) = ((s.msb ^^ b) ^^ (t.msb ^^ c)) := by
    rw [BitVec.msb_xor]
    cases s.msb <;> cases t.msb <;> cases b <;> cases c <;> rfl
  unfold bitStep
  rw [hbit, hshift]
  cases s.msb ^^ b <;> cases t.msb ^^ c
  · rfl
  · simp only [Bool.false_xor, if_true, Bool.false_eq_true, if_false, BitVec.xor_assoc]
  · simp only [Bool.xor_false, if_true, Bool.false_eq_true, if_false]
    rw [BitVec.xor_assoc, BitVec.xor_comm (t <<< 1) g, ← BitVec.xor_assoc]
  · -- the two feedbacks cancel
    simp only [Bool.xor_self, if_true, Bool.false_eq_true, if_false]
    rw [BitVec.xor_assoc, ← BitVec.xor_assoc g, BitVec.xor_comm g, BitVec.xor_assoc,
      BitVec.xor_self, BitVec.xor_zero]

/-- The register is linear: states and messages may be added separately. -/
theorem feed_xor (g : BitVec w) {l m : List Bool} (h : l.length = m.length) (s t : BitVec w) :
    feed g (s ^^^ t) (List.zipWith xor l m) = feed g s l ^^^ feed g t m := by
  induction l generalizing m s t with
  | nil =>
    cases m with
    | nil => rfl
    | cons c m => simp at h
  | cons b l ih =>
    cases m with
    | nil => simp at h
    | cons c m =>
      rw [List.zipWith_cons_cons, feed_cons, feed_cons, feed_cons, bitStep_xor]
      exact ih (Nat.succ.inj h) _ _

lemma zipWith_xor_false (l : List Bool) :
    List.zipWith xor l (List.replicate l.length false) = l := by
  apply List.ext_getElem <;> simp

/-- A change of the state travels through the register on its own. -/
lemma feed_xor_zeros (g s t : BitVec w) (l : List Bool) :
    feed g (s ^^^ t) l = feed g s l ^^^ feed g t (List.replicate l.length false) := by
  conv_lhs => rw [← zipWith_xor_false l]
  exact feed_xor g (by simp) s t

/-- Nothing comes from nothing. -/
lemma bitStep_zero_false (g : BitVec w) : bitStep g 0#w false = 0#w := by
  simp [bitStep]

/-- Zeros leave an empty register empty. -/
lemma feed_zero_zeros (g : BitVec w) (n : ℕ) : feed g 0#w (List.replicate n false) = 0#w := by
  induction n with
  | zero => rfl
  | succ n ih => rw [List.replicate_succ, feed_cons, bitStep_zero_false, ih]

/-! ## Several shifts at once -/

/-- The `n` leading bits of `x`, most significant first. -/
def leading {v : ℕ} (n : ℕ) (x : BitVec v) : List Bool := List.ofFn fun i : Fin n => x.getMsbD i

/-- All bits of `x`, most significant first. -/
def bits {v : ℕ} (x : BitVec v) : List Bool := leading v x

@[simp] lemma length_leading {v : ℕ} (n : ℕ) (x : BitVec v) : (leading n x).length = n :=
  List.length_ofFn

@[simp] lemma length_bits {v : ℕ} (x : BitVec v) : (bits x).length = v := length_leading v x

lemma getElem?_bits {v : ℕ} (x : BitVec v) {i : ℕ} (h : i < v) :
    (bits x)[i]? = some (x.getMsbD i) := by
  simp [bits, leading, h]

/-- The bits of a sum are the sums of the bits. -/
lemma bits_xor {v : ℕ} (x y : BitVec v) : bits (x ^^^ y) = List.zipWith xor (bits x) (bits y) := by
  apply List.ext_getElem
  · simp
  · intro i h₁ h₂
    simp [bits, leading, BitVec.getMsbD_xor]

/-- The bits determine the word. -/
lemma bits_injective {v : ℕ} {x y : BitVec v} (h : bits x = bits y) : x = y := by
  apply BitVec.eq_of_getMsbD_eq
  intro i hi
  apply Option.some.inj
  rw [← getElem?_bits x hi, h, getElem?_bits y hi]

/-- The first bit, and the leading bits of what is shifted. -/
lemma leading_succ {v : ℕ} (n : ℕ) (x : BitVec v) :
    leading (n + 1) x = x.msb :: leading n (x <<< 1) := by
  unfold leading
  rw [List.ofFn_succ]
  congr 2
  funext i
  rw [BitVec.getMsbD_shiftLeft]
  simp

/-- The bit that is shifted out decides whether the generator is added. -/
lemma bitStep_eq (g s : BitVec w) (b : Bool) :
    bitStep g s b = (s <<< 1) ^^^ bitStep g 0#w (s.msb ^^ b) := by
  unfold bitStep
  cases s.msb ^^ b <;> simp

/-- The leading bits of the state meet the message; the others move up. -/
theorem feed_eq_shiftLeft_xor (g : BitVec w) (l : List Bool) (s : BitVec w) :
    feed g s l = (s <<< l.length) ^^^ feed g 0#w (List.zipWith xor (leading l.length s) l) := by
  induction l generalizing s with
  | nil => simp [leading]
  | cons b l ih =>
    -- the first shift splits into the state moving up and the fed-back bit
    have hmerge : feed g (bitStep g 0#w (s.msb ^^ b))
          (List.zipWith xor (leading l.length (s <<< 1)) l) =
        feed g 0#w (List.zipWith xor (leading l.length (s <<< 1)) l) ^^^
          feed g (bitStep g 0#w (s.msb ^^ b)) (List.replicate l.length false) := by
      have h := feed_xor_zeros g 0#w (bitStep g 0#w (s.msb ^^ b))
        (List.zipWith xor (leading l.length (s <<< 1)) l)
      simpa using h
    rw [List.length_cons, leading_succ, List.zipWith_cons_cons, feed_cons, feed_cons, bitStep_eq,
      feed_xor_zeros, ih, hmerge, BitVec.xor_assoc, ← BitVec.shiftLeft_add, Nat.add_comm 1]

/-! ## Nothing is lost

`LowZero n s` says that the `n` low bits of `s` are clear. If the generator has a constant term,
a shift that leaves a low bit clear cannot have fed back, so clear low bits can be followed
backwards through the shifts. -/

/-- The `n` low bits of `s` are clear. -/
def LowZero (n : ℕ) (s : BitVec w) : Prop := ∀ i < n, s.getLsbD i = false

lemma lowZero_zero (n : ℕ) : LowZero n 0#w := fun _ _ => BitVec.getLsbD_zero

lemma eq_zero_of_lowZero {s : BitVec w} (h : LowZero w s) : s = 0#w := by
  apply BitVec.eq_of_getLsbD_eq
  intro i hi
  rw [h i hi]
  exact BitVec.getLsbD_zero.symm

/-- A shift that ends with clear low bits did not feed back. -/
lemma bitStep_lowZero {g s : BitVec w} {b : Bool} {n : ℕ} (hg : g.getLsbD 0 = true) (hn : n < w)
    (h : LowZero (n + 1) (bitStep g s b)) : s.msb = b ∧ LowZero n s := by
  have hfeed : (s.msb ^^ b) = false := by
    have h0 := h 0 (Nat.succ_pos n)
    cases hb : s.msb ^^ b with
    | false => rfl
    | true => simp [bitStep, hb, hg] at h0
  refine ⟨?_, fun i hi => ?_⟩
  · revert hfeed
    cases s.msb <;> cases b <;> simp
  · have hi' := h (i + 1) (by omega)
    simp only [bitStep, hfeed, Bool.false_eq_true, if_false, BitVec.getLsbD_shiftLeft] at hi'
    simpa [show i + 1 < w by omega] using hi'

/-- Low zeros behind some bits come from low zeros in front of them. -/
lemma feed_lowZero {g : BitVec w} (hg : g.getLsbD 0 = true) {l : List Bool} {n : ℕ}
    (hn : n + l.length ≤ w) (s : BitVec w) (h : LowZero (n + l.length) (feed g s l)) :
    LowZero n s := by
  induction l generalizing n s with
  | nil => exact h
  | cons b l ih =>
    rw [List.length_cons] at hn h
    have hstep : LowZero (n + 1) (bitStep g s b) :=
      ih (by omega) _ (by rwa [show n + 1 + l.length = n + (l.length + 1) by omega])
    exact (bitStep_lowZero hg (by omega) hstep).2

/-- At most `w` message bits that leave a cleared register clear are all zero. -/
theorem feed_zero_eq_zero {g : BitVec w} (hg : g.getLsbD 0 = true) {l : List Bool}
    (hlen : l.length ≤ w) (h : feed g 0#w l = 0#w) : ∀ b ∈ l, b = false := by
  induction l with
  | nil => intro b hb; cases hb
  | cons b l ih =>
    rw [List.length_cons] at hlen
    -- from the empty register back to the first bit
    have hlow : LowZero 1 (bitStep g 0#w b) := by
      apply feed_lowZero hg (l := l) (by omega)
      rw [feed_cons] at h
      rw [h]
      exact lowZero_zero _
    -- a one would have added the generator, whose lowest bit is set
    have hb : b = false := by
      have := (bitStep_lowZero hg (by omega) hlow).1
      simpa using this.symm
    subst hb
    rw [feed_cons, bitStep_zero_false] at h
    intro c hc
    rcases List.mem_cons.mp hc with rfl | hc
    · rfl
    · exact ih (by omega) h c hc

/-- A register that a zero empties was empty. -/
lemma bitStep_false_eq_zero {g s : BitVec w} (hg : g.getLsbD 0 = true)
    (h : bitStep g s false = 0#w) : s = 0#w := by
  have hw : 0 < w := by
    rcases Nat.eq_zero_or_pos w with rfl | hpos
    · simp at hg
    · exact hpos
  have hlow : LowZero (w - 1 + 1) (bitStep g s false) := by
    rw [h]
    exact lowZero_zero _
  obtain ⟨hmsb, hrest⟩ := bitStep_lowZero hg (by omega) hlow
  apply eq_zero_of_lowZero
  intro i hi
  by_cases hlast : i < w - 1
  · exact hrest i hlast
  · rw [show i = w - 1 by omega, ← BitVec.msb_eq_getLsbD_last]
    exact hmsb

/-- Feeding zeros loses nothing. -/
theorem feed_zeros_eq_zero {g : BitVec w} (hg : g.getLsbD 0 = true) (n : ℕ) {s : BitVec w}
    (h : feed g s (List.replicate n false) = 0#w) : s = 0#w := by
  induction n generalizing s with
  | zero => exact h
  | succ n ih =>
    rw [List.replicate_succ, feed_cons] at h
    exact bitStep_false_eq_zero hg (ih h)

/-! ## Bursts -/

/-- Bit `j` of `e` is set only for `i ≤ j < i + w`. -/
def WithinWindow (i w : ℕ) (e : List Bool) : Prop :=
  ∀ j, e[j]? = some true → i ≤ j ∧ j < i + w

instance (i k : ℕ) (e : List Bool) : Decidable (WithinWindow i k e) :=
  decidable_of_iff (∀ j < e.length, e[j]? = some true → i ≤ j ∧ j < i + k)
    ⟨fun h j hj => h j (List.getElem?_eq_some_iff.mp hj).1 hj, fun h j _ => h j⟩

/-- What is in front of other bits is in the same window. -/
lemma WithinWindow.of_append {i k : ℕ} {e f : List Bool} (h : WithinWindow i k (e ++ f)) :
    WithinWindow i k e := by
  intro j hj
  apply h j
  rw [List.getElem?_append_left (List.getElem?_eq_some_iff.mp hj).1, hj]

/-- Messages that differ only in a window have their difference in it. -/
lemma withinWindow_zipWith_xor {i k : ℕ} {l m : List Bool}
    (h : ∀ j, l[j]? ≠ m[j]? → i ≤ j ∧ j < i + k) : WithinWindow i k (List.zipWith xor l m) := by
  intro j hj
  apply h
  intro heq
  rw [List.getElem?_zipWith, heq] at hj
  cases hm : m[j]? with
  | none => simp [hm] at hj
  | some b => simp [hm] at hj

/-- Messages of one length that differ have a set bit in their difference. -/
lemma true_mem_zipWith_xor {l m : List Bool} (hlen : l.length = m.length) (hne : l ≠ m) :
    true ∈ List.zipWith xor l m := by
  by_contra hmem
  apply hne
  apply List.ext_getElem hlen
  intro j hl hm
  have hj : j < (List.zipWith xor l m).length := by rw [List.length_zipWith]; omega
  have hget : (List.zipWith xor l m)[j] = (l[j] ^^ m[j]) := List.getElem_zipWith
  by_contra hbit
  apply hmem
  have htrue : (l[j] ^^ m[j]) = true := by
    cases hb : l[j] <;> cases hc : m[j] <;> simp_all
  rw [← htrue, ← hget]
  exact List.getElem_mem hj

/-- A message whose set bits lie in a window splits into zeros, the window and zeros. -/
lemma WithinWindow.split {i k : ℕ} {e : List Bool} (h : WithinWindow i k e) :
    ∃ m mid n, e = List.replicate m false ++ mid ++ List.replicate n false ∧ mid.length ≤ k := by
  have hzeros : ∀ l : List Bool, (∀ b ∈ l, b = false) → l = List.replicate l.length false :=
    fun l hl => List.eq_replicate_of_mem hl
  refine ⟨(e.take i).length, (e.drop i).take k, ((e.drop i).drop k).length, ?_,
    List.length_take_le ..⟩
  rw [← hzeros (e.take i), ← hzeros ((e.drop i).drop k), List.append_assoc,
    List.take_append_drop, List.take_append_drop]
  -- behind the window
  · intro b hb
    obtain ⟨j, hj⟩ := List.mem_iff_getElem?.mp hb
    rw [List.getElem?_drop, List.getElem?_drop] at hj
    cases b with
    | false => rfl
    | true => exact absurd (h _ hj).2 (by omega)
  -- in front of it
  · intro b hb
    obtain ⟨j, hj⟩ := List.mem_iff_getElem?.mp hb
    rw [List.getElem?_take] at hj
    split at hj
    · cases b with
      | false => rfl
      | true => exact absurd (h _ hj).1 (by omega)
    · cases hj

/-- A nonzero message whose set bits lie within `w` consecutive bits leaves a cleared register
nonzero. -/
theorem feed_burst_ne_zero {g : BitVec w} (hg : g.getLsbD 0 = true) {i : ℕ} {e : List Bool}
    (hwin : WithinWindow i w e) (hne : true ∈ e) : feed g 0#w e ≠ 0#w := by
  obtain ⟨m, mid, n, rfl, hlen⟩ := hwin.split
  intro h
  rw [feed_append, feed_append, feed_zero_zeros] at h
  have hmid := feed_zero_eq_zero hg hlen (feed_zeros_eq_zero hg n h)
  simp only [List.mem_append, List.mem_replicate, Bool.true_eq_false, and_false, false_or,
    or_false] at hne
  exact Bool.true_eq_false.mp (hmid true hne)

end Lfsr
