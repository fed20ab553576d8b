import Mathlib.Data.List.Basic
import Mathlib.Data.Vector.Basic

/-!
# Bounds-checked memory

A buffer of `n` cells is a `Vector β n`. A read or a write outside it is a fault, so a program
that ends with `.ok` has kept to its buffers. What a sequence of writes leaves behind is stated
through the list of the cells: the part already written, the cells being written and the rest.
-/

namespace Memory

/-- What stops a program short of a result. -/
inductive Fault
  /-- An access outside an object. -/
  | outOfBounds
  /-- An allocation larger than the machine allows. -/
  | lengthError
  /-- A loop that comes back to a state it has been in. -/
  | diverges
  /-- An assertion that does not hold. -/
  | assertion
deriving DecidableEq, Repr

/-- The faulting computations. -/
abbrev Checked (α : Type) := Except Fault α

variable {β γ : Type} {n : ℕ}

/-- The computation ends without a fault. -/
def Succeeds (x : Checked β) : Prop := ∃ r, x = .ok r

/-- A computation that comes to an end has done so in both of its parts. -/
lemma bind_eq_ok_iff {x : Checked β} {f : β → Checked γ} {r : γ} :
    (x >>= f) = .ok r ↔ ∃ a, x = .ok a ∧ f a = .ok r := by
  cases x with
  | error fault => simp [Bind.bind, Except.bind]
  | ok a => simp [Bind.bind, Except.bind]

@[simp] lemma ok_bind (a : β) (f : β → Checked γ) : ((Except.ok a : Checked β) >>= f) = f a := rfl

lemma succeeds_ok (a : β) : Succeeds (.ok a : Checked β) := ⟨a, rfl⟩

/-- A fault is no result. -/
lemma not_succeeds_error (fault : Fault) : ¬ Succeeds (.error fault : Checked β) := by
  rintro ⟨r, h⟩
  cases h

/-- Both parts have to stay inside the memory. -/
lemma succeeds_bind_iff {x : Checked β} {f : β → Checked γ} :
    Succeeds (x >>= f) ↔ ∃ a, x = .ok a ∧ Succeeds (f a) := by
  unfold Succeeds
  simp only [bind_eq_ok_iff]
  grind

/-- A computation for each element, none of which faults. -/
lemma mapM_eq_ok {f : β → Checked γ} {g : β → γ} {l : List β} (h : ∀ a ∈ l, f a = .ok (g a)) :
    l.mapM f = .ok (l.map g) := by
  induction l with
  | nil => rfl
  | cons a l ih =>
    rw [List.mapM_cons, h a List.mem_cons_self, ok_bind,
      ih fun b hb => h b (List.mem_cons_of_mem a hb)]
    rfl

/-- What they return is what each of them returns. -/
lemma eq_map_of_mapM_eq_ok {f : β → Checked γ} {g : β → γ} (h : ∀ a b, f a = .ok b → b = g a)
    {l : List β} {r : List γ} (hr : l.mapM f = .ok r) : r = l.map g := by
  induction l generalizing r with
  | nil => exact (Except.ok.inj hr).symm
  | cons a l ih =>
    rw [List.mapM_cons] at hr
    obtain ⟨b, hb, hrest⟩ := bind_eq_ok_iff.mp hr
    obtain ⟨bs, hbs, hcons⟩ := bind_eq_ok_iff.mp hrest
    rw [← Except.ok.inj hcons, h a b hb, ih hbs, List.map_cons]

/-- Read cell `i`. -/
def load (buffer : Vector β n) (i : ℕ) : Checked β :=
  if h : i < n then .ok buffer[i] else .error .outOfBounds

/-- Write cell `i`. -/
def store (buffer : Vector β n) (i : ℕ) (x : β) : Checked (Vector β n) :=
  if h : i < n then .ok (buffer.set i x h) else .error .outOfBounds

/-- Write the cells from `i` on, as `memcpy` into the buffer does. -/
def storeAll (buffer : Vector β n) (i : ℕ) : List β → Checked (Vector β n)
  | [] => .ok buffer
  | x :: xs => do
    let buffer ← store buffer i x
    storeAll buffer (i + 1) xs

/-- Read `count` cells of an object from `i` on, as `memcpy` out of it does. -/
def loadAll (object : List β) (i count : ℕ) : Checked (List β) :=
  if i + count ≤ object.length then .ok ((object.drop i).take count) else .error .outOfBounds

/-- Read cell `i` of an object. -/
def loadAt (object : List β) (i : ℕ) : Checked β :=
  match object[i]? with
  | some x => .ok x
  | none => .error .outOfBounds

/-- Write cell `i` of an object. -/
def storeAt (object : List β) (i : ℕ) (x : β) : Checked (List β) :=
  if i < object.length then .ok (object.set i x) else .error .outOfBounds

/-- Read cell `i` of an object and write it again. -/
def updateAt (object : List β) (i : ℕ) (f : β → β) : Checked (List β) := do
  let x ← loadAt object i
  storeAt object i (f x)

/-- Write the cells of an object from `i` on, as `memcpy` into it does. -/
def copyTo (object : List β) (i : ℕ) : List β → Checked (List β)
  | [] => .ok object
  | x :: xs => do
    let object ← storeAt object i x
    copyTo object (i + 1) xs

/-- `realloc` to `size` cells; those that are new hold anything. -/
def realloc (fresh : ℕ → β) (object : List β) (size : ℕ) : List β :=
  object.take size ++ (List.range (size - object.length)).map fun i => fresh (object.length + i)

/-- `for (index = 0; index < bound; index++)` over an index of `w` bits: `fuel` more rounds of it,
from an index on. -/
def forBelow {w : ℕ} (bound : BitVec w) (body : γ → BitVec w → Checked γ) :
    (fuel : ℕ) → (index : BitVec w) → γ → Checked γ
  | 0, _, _ => .error .diverges
  | fuel + 1, index, s =>
    if index < bound then do
      let s ← body s index
      forBelow bound body fuel (index + 1) s
    else .ok s

/-! ## What is read and what is written -/

lemma length_pre_lt {buffer : Vector β n} {pre post : List β} {x : β}
    (h : buffer.toList = pre ++ x :: post) : pre.length < n := by
  have hlen := congrArg List.length h
  simp only [Vector.length_toList, List.length_append, List.length_cons] at hlen
  omega

/-- The element at its place is read. -/
lemma load_eq_ok {buffer : Vector β n} {pre post : List β} {x : β}
    (h : buffer.toList = pre ++ x :: post) : load buffer pre.length = .ok x := by
  have hlt := length_pre_lt h
  have hget : buffer.toList[pre.length]? = some x := by rw [h]; simp
  rw [List.getElem?_eq_getElem (by simpa using hlt), Vector.getElem_toList,
    Option.some.injEq] at hget
  rw [load, dif_pos hlt, hget]

/-- Only the element at its place is written over. -/
lemma store_eq_ok {buffer : Vector β n} {pre post : List β} {y : β} (x : β)
    (h : buffer.toList = pre ++ y :: post) :
    ∃ buffer', store buffer pre.length x = .ok buffer' ∧ buffer'.toList = pre ++ x :: post := by
  have hlt := length_pre_lt h
  refine ⟨buffer.set pre.length x hlt, by rw [store, dif_pos hlt], ?_⟩
  rw [Vector.toList_set, h, List.set_append_right _ _ le_rfl, Nat.sub_self, List.set_cons_zero]

lemma storeAll_singleton (buffer : Vector β n) (i : ℕ) (x : β) :
    storeAll buffer i [x] = store buffer i x := by
  rw [storeAll]
  exact bind_pure _

/-- One run of elements is stored behind the other. -/
lemma storeAll_append (buffer : Vector β n) (i : ℕ) (xs ys : List β) :
    storeAll buffer i (xs ++ ys) = (do
      let buffer ← storeAll buffer i xs
      storeAll buffer (i + xs.length) ys) := by
  induction xs generalizing buffer i with
  | nil => rfl
  | cons x xs ih =>
    simp only [List.cons_append, storeAll, ih, bind_assoc, List.length_cons]
    rw [Nat.add_assoc, Nat.add_comm 1]

/-- `memcpy` over the cells `mid` replaces exactly them. -/
lemma storeAll_eq_ok (xs : List β) {buffer : Vector β n} {pre mid post : List β}
    (h : buffer.toList = pre ++ mid ++ post) (hlen : mid.length = xs.length) :
    ∃ buffer', storeAll buffer pre.length xs = .ok buffer' ∧
      buffer'.toList = pre ++ xs ++ post := by
  -- one element after another takes the place of one that was there
  induction xs generalizing buffer pre mid with
  | nil =>
    obtain rfl := List.eq_nil_of_length_eq_zero hlen
    exact ⟨buffer, rfl, h⟩
  | cons x xs ih =>
    cases mid with
    | nil => simp at hlen
    | cons y mid =>
      have hsplit : buffer.toList = pre ++ y :: (mid ++ post) := by simpa using h
      obtain ⟨buffer₁, hstore, h₁⟩ := store_eq_ok x hsplit
      have hnext : buffer₁.toList = (pre ++ [x]) ++ mid ++ post := by simpa using h₁
      obtain ⟨buffer₂, hrest, h₂⟩ := ih hnext (by simpa using hlen)
      refine ⟨buffer₂, ?_, by simpa using h₂⟩
      rw [storeAll, hstore, ok_bind]
      simpa using hrest

/-- What is written from the beginning on stands in front of what was there. -/
lemma storeAll_front (buffer : Vector β n) {xs : List β} (h : xs.length ≤ n) :
    ∃ buffer', storeAll buffer 0 xs = .ok buffer' ∧
      buffer'.toList = xs ++ buffer.toList.drop xs.length := by
  have hsplit : buffer.toList =
      [] ++ buffer.toList.take xs.length ++ buffer.toList.drop xs.length := by
    rw [List.nil_append, List.take_append_drop]
  have hlength : (buffer.toList.take xs.length).length = xs.length := by
    rw [List.length_take, Vector.length_toList, min_eq_left h]
  exact storeAll_eq_ok xs hsplit hlength

/-- What fills the whole buffer is all that it holds then. -/
lemma storeAll_whole (buffer : Vector β n) {xs : List β} (h : xs.length = n) :
    ∃ buffer', storeAll buffer 0 xs = .ok buffer' ∧ buffer'.toList = xs := by
  obtain ⟨buffer', hstore, hlist⟩ := storeAll_front buffer h.le
  have hnone : buffer.toList.drop xs.length = [] :=
    List.drop_of_length_le (by rw [Vector.length_toList, h])
  rw [hnone, List.append_nil] at hlist
  exact ⟨buffer', hstore, hlist⟩

/-- A write is read back, and is seen at no other cell. -/
lemma exists_store (buffer : Vector β n) {i : ℕ} (hi : i < n) (x : β) :
    ∃ buffer', store buffer i x = .ok buffer' ∧ load buffer' i = .ok x ∧
      ∀ j, j ≠ i → load buffer' j = load buffer j := by
  refine ⟨buffer.set i x hi, dif_pos hi, ?_, ?_⟩
  · rw [load, dif_pos hi, Vector.getElem_set_self]
  · intro j hj
    unfold load
    split_ifs with hlt
    · rw [Vector.getElem_set_ne hi hlt hj.symm]
    · rfl

/-- What is stored is inside the buffer. -/
lemma lt_of_store_eq_ok {buffer buffer' : Vector β n} {i : ℕ} {x : β}
    (h : store buffer i x = .ok buffer') : i < n := by
  unfold store at h
  split at h
  · assumption
  · cases h

/-- All of it is. -/
lemma le_of_storeAll_eq_ok {buffer buffer' : Vector β n} {i : ℕ} {xs : List β}
    (h : storeAll buffer i xs = .ok buffer') (hne : xs ≠ []) : i + xs.length ≤ n := by
  induction xs generalizing buffer i with
  | nil => exact absurd rfl hne
  | cons x xs ih =>
    rw [storeAll] at h
    obtain ⟨buffer₁, hstore, hrest⟩ := bind_eq_ok_iff.mp h
    have hlt := lt_of_store_eq_ok hstore
    rcases List.eq_nil_or_concat xs with rfl | ⟨_, _, rfl⟩
    · simp only [List.length_cons, List.length_nil]; omega
    · have := ih hrest (by simp)
      rw [List.length_cons]
      omega

/-- A buffer around the cells that are about to be written. -/
lemma toList_eq_append (buffer : Vector β n) {i count : ℕ} (h : i + count ≤ n) :
    ∃ pre mid post, buffer.toList = pre ++ mid ++ post ∧ pre.length = i ∧ mid.length = count := by
  refine ⟨buffer.toList.take i, (buffer.toList.drop i).take count,
    (buffer.toList.drop i).drop count, ?_, ?_, ?_⟩
  · rw [List.append_assoc, List.take_append_drop, List.take_append_drop]
  · rw [List.length_take, Vector.length_toList]
    omega
  · rw [List.length_take, List.length_drop, Vector.length_toList]
    omega

/-- What `memcpy` has written first can be read back. -/
lemma load_storeAll {buffer buffer' : Vector β n} {i : ℕ} {x : β} {xs : List β}
    (h : storeAll buffer i (x :: xs) = .ok buffer') : load buffer' i = .ok x := by
  have hle := le_of_storeAll_eq_ok h (List.cons_ne_nil x xs)
  obtain ⟨pre, mid, post, hsplit, rfl, hmid⟩ := toList_eq_append buffer hle
  obtain ⟨buffer₁, hstore, h₁⟩ := storeAll_eq_ok (x :: xs) hsplit hmid
  rw [h] at hstore
  obtain rfl := Except.ok.inj hstore
  rw [List.append_assoc, List.cons_append] at h₁
  exact load_eq_ok h₁

lemma loadAll_eq_ok {object : List β} {i count : ℕ} (h : i + count ≤ object.length) :
    loadAll object i count = .ok ((object.drop i).take count) := if_pos h

/-- The element that is there is read. -/
lemma loadAt_eq_ok {object : List β} {i : ℕ} {x : β} (h : object[i]? = some x) :
    loadAt object i = .ok x := by
  unfold loadAt
  rw [h]

/-- A cell that was read stands in front of the cells behind it. -/
lemma drop_of_loadAt {object : List β} {i : ℕ} {x : β} (h : loadAt object i = .ok x) :
    object.drop i = x :: object.drop (i + 1) := by
  unfold loadAt at h
  cases hget : object[i]? with
  | none =>
    rw [hget] at h
    cases h
  | some y =>
    rw [hget] at h
    obtain ⟨hlt, rfl⟩ := List.getElem?_eq_some_iff.mp hget
    rw [← Except.ok.inj h]
    exact List.drop_eq_getElem_cons hlt

lemma exists_loadAt_eq_ok {object : List β} {i : ℕ} (h : i < object.length) :
    ∃ x, loadAt object i = .ok x :=
  ⟨object[i], loadAt_eq_ok (List.getElem?_eq_getElem h)⟩

/-- One element is read exactly if it is inside the object. -/
lemma succeeds_loadAt_iff {object : List β} {i : ℕ} :
    Succeeds (loadAt object i) ↔ i < object.length := by
  constructor
  · intro h
    by_contra hout
    unfold loadAt at h
    rw [List.getElem?_eq_none (not_lt.mp hout)] at h
    exact not_succeeds_error _ h
  · exact exists_loadAt_eq_ok

/-- Several are exactly if the last one is inside. -/
lemma succeeds_loadAll_iff {object : List β} {i count : ℕ} :
    Succeeds (loadAll object i count) ↔ i + count ≤ object.length := by
  constructor
  · intro h
    by_contra hout
    unfold loadAll at h
    rw [if_neg hout] at h
    exact not_succeeds_error _ h
  · intro h
    exact ⟨_, loadAll_eq_ok h⟩

/-- What is read in an object is read in a larger one with the same beginning. -/
lemma loadAt_append {object : List β} {i : ℕ} {x : β} (rest : List β)
    (h : loadAt object i = .ok x) : loadAt (object ++ rest) i = .ok x := by
  have hlt := succeeds_loadAt_iff.mp ⟨x, h⟩
  unfold loadAt at h ⊢
  rwa [List.getElem?_append_left hlt]

/-- What lies behind the object changes nothing that is read from it. -/
lemma loadAll_append {object bytes : List β} {i count : ℕ} (rest : List β)
    (h : loadAll object i count = .ok bytes) : loadAll (object ++ rest) i count = .ok bytes := by
  have hle := succeeds_loadAll_iff.mp ⟨bytes, h⟩
  rw [loadAll_eq_ok hle] at h
  rw [loadAll_eq_ok (by rw [List.length_append]; omega), ← h,
    List.drop_append_of_le_length (by omega),
    List.take_append_of_le_length (by rw [List.length_drop]; omega)]

lemma length_of_loadAll_eq_ok {object bytes : List β} {i count : ℕ}
    (h : loadAll object i count = .ok bytes) : bytes.length = count := by
  have hle := succeeds_loadAll_iff.mp ⟨bytes, h⟩
  rw [loadAll_eq_ok hle] at h
  obtain rfl := Except.ok.inj h
  rw [List.length_take, List.length_drop]
  omega

section Places

variable {object rest xs : List β} {i k : ℕ} {b : β}

/-- The element in front of the rest, and the rest behind it. -/
lemma loadAt_of_drop (h : object.drop i = b :: rest) :
    loadAt object i = .ok b ∧ object.drop (i + 1) = rest := by
  have hget : object[i]? = some b := by
    have := congrArg (·[0]?) h
    simpa using this
  refine ⟨loadAt_eq_ok hget, ?_⟩
  rw [← List.drop_drop, h, List.drop_one, List.tail_cons]

/-- The same in a window of the object. -/
lemma loadAt_of_drop_take (h : (object.drop i).take k = b :: rest) :
    loadAt object i = .ok b ∧ (object.drop (i + 1)).take (k - 1) = rest := by
  cases hdrop : object.drop i with
  | nil =>
    rw [hdrop, List.take_nil] at h
    cases h
  | cons x tail =>
    rw [hdrop] at h
    cases k with
    | zero => cases h
    | succ k =>
      obtain ⟨rfl, htail⟩ := List.cons.inj h
      obtain ⟨hload, hnext⟩ := loadAt_of_drop hdrop
      exact ⟨hload, by rw [hnext, Nat.add_sub_cancel]; exact htail⟩

/-- What is behind a part of the rest. -/
lemma drop_append_of_drop (h : object.drop i = xs ++ rest) :
    object.drop (i + xs.length) = rest := by
  rw [← List.drop_drop, h, List.drop_left]

/-- The elements in front of the rest. -/
lemma loadAll_of_drop (h : object.drop i = xs ++ rest) (hi : i ≤ object.length) :
    loadAll object i xs.length = .ok xs := by
  have hlength := congrArg List.length h
  rw [List.length_drop, List.length_append] at hlength
  rw [loadAll_eq_ok (by omega), h, List.take_left]

/-- A pointer into the object is a place in it. -/
lemma loadAt_drop (object : List β) (i j : ℕ) :
    loadAt (object.drop i) j = loadAt object (i + j) := by
  rw [loadAt, loadAt, List.getElem?_drop]

end Places

lemma loadAt_append_cons (pre : List β) (x : β) (post : List β) :
    loadAt (pre ++ x :: post) pre.length = .ok x :=
  loadAt_eq_ok (by rw [List.getElem?_append_right (Nat.le_refl _), Nat.sub_self]; rfl)

lemma storeAt_append_cons (pre : List β) (x y : β) (post : List β) :
    storeAt (pre ++ x :: post) pre.length y = .ok (pre ++ y :: post) := by
  rw [storeAt, if_pos (by rw [List.length_append, List.length_cons]; omega),
    List.set_append_right _ _ (Nat.le_refl _), Nat.sub_self, List.set_cons_zero]

lemma updateAt_append_cons (pre : List β) (x : β) (post : List β) (f : β → β) :
    updateAt (pre ++ x :: post) pre.length f = .ok (pre ++ f x :: post) := by
  rw [updateAt, loadAt_append_cons, ok_bind, storeAt_append_cons]

/-- `memcpy` over the cells `mid` of an object replaces exactly them. -/
lemma copyTo_append (xs : List β) {pre mid post : List β} (h : mid.length = xs.length) :
    copyTo (pre ++ (mid ++ post)) pre.length xs = .ok (pre ++ (xs ++ post)) := by
  induction xs generalizing pre mid with
  | nil =>
    obtain rfl := List.eq_nil_of_length_eq_zero h
    rfl
  | cons x xs ih =>
    cases mid with
    | nil => cases h
    | cons y mid =>
      have hnext : copyTo ((pre ++ [x]) ++ (mid ++ post)) (pre ++ [x]).length xs =
          .ok ((pre ++ [x]) ++ (xs ++ post)) := ih (Nat.succ.inj h)
      rw [List.length_append, List.length_singleton, List.append_assoc, List.append_assoc] at hnext
      rw [copyTo, List.cons_append, storeAt_append_cons, ok_bind]
      exact hnext

/-- A larger object begins with the smaller one. -/
lemma realloc_of_le (fresh : ℕ → β) {object : List β} {size : ℕ} (h : object.length ≤ size) :
    ∃ new, realloc fresh object size = object ++ new ∧ new.length = size - object.length := by
  refine ⟨(List.range (size - object.length)).map fun i => fresh (object.length + i), ?_, ?_⟩
  · rw [realloc, List.take_of_length_le h]
  · rw [List.length_map, List.length_range]

/-! ## Counting loops -/

/-- **Counting rule.** What each round takes on to the next index holds at the bound when the loop
is over; the index does not wrap on its way. -/
lemma forBelow_rule {w : ℕ} {bound : BitVec w} {body : γ → BitVec w → Checked γ}
    {Inv : ℕ → γ → Prop}
    (hbody : ∀ (index : BitVec w) s, index < bound → Inv index.toNat s →
      ∃ s', body s index = .ok s' ∧ Inv (index.toNat + 1) s')
    {fuel : ℕ} {index : BitVec w} {s : γ} (hle : index ≤ bound)
    (hfuel : bound.toNat < index.toNat + fuel) (hs : Inv index.toNat s) :
    ∃ s', forBelow bound body fuel index s = .ok s' ∧ Inv bound.toNat s' := by
  -- the fuel is more than the rounds that are left, so it does not run out
  induction fuel generalizing index s with
  | zero =>
    have hle' : index.toNat ≤ bound.toNat := hle
    omega
  | succ fuel ih =>
    rw [forBelow]
    split_ifs with hlt
    · have hlt' : index.toNat < bound.toNat := hlt
      have hbound := bound.isLt
      -- below the bound the counter does not wrap
      have hnext : (index + 1).toNat = index.toNat + 1 := by
        rw [BitVec.toNat_add, BitVec.ofNat_eq_ofNat, BitVec.toNat_ofNat, Nat.add_mod_mod,
          Nat.mod_eq_of_lt (show index.toNat + 1 < 2 ^ w by omega)]
      obtain ⟨s', hround, hs'⟩ := hbody index s hlt hs
      rw [hround, ok_bind]
      have hle' : index + 1 ≤ bound := show (index + 1).toNat ≤ bound.toNat by omega
      exact ih hle' (by omega) (hnext ▸ hs')
    · obtain rfl : index = bound := by
        have hle' : index.toNat ≤ bound.toNat := hle
        have hnot : ¬ index.toNat < bound.toNat := hlt
        exact BitVec.eq_of_toNat_eq (by omega)
      exact ⟨s, rfl, hs⟩

end Memory
