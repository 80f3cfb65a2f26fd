import Chip8.Machine.Basic

/-! # Computing within bounds

The machine is made of arrays and of numbers of fixed sizes. Here an index outside its array, a
number that its type does not hold, a division by zero, a place that is taken for unreachable and a
loop that outlives its bound are traps, and a trap ends the computation. The modules that follow
carry out the machine in these terms, with the operands and indices that it computes, and find it
to end without a trap, as the machine that has no traps does.
-/
namespace Chip8

/-- What it is to go out of range. -/
inductive Trap
  | outOfBounds
  /-- A number that its type does not hold, or a shift by as many bits as there are. -/
  | overflow
  | zeroDivisor
  | unreachable
  /-- A loop goes on after the last turn it may take. -/
  | endless
deriving DecidableEq, Repr

abbrev Checked := Except Trap

namespace Checked
variable {α β : Type} {n : Nat}

@[simp] theorem ok_bind (a : α) (f : α → Checked β) : (Except.ok a >>= f) = f a := rfl

@[simp] theorem pure_eq_ok (a : α) : (pure a : Checked α) = .ok a := rfl

/-- A number as one of a type with `size` values. -/
def fit (size a : Nat) : Checked Nat := if a < size then .ok a else .error .overflow

def add (size a b : Nat) : Checked Nat := fit size (a + b)

def mul (size a b : Nat) : Checked Nat := fit size (a * b)

def sub (a b : Nat) : Checked Nat := if b ≤ a then .ok (a - b) else .error .overflow

def div (a b : Nat) : Checked Nat := if b = 0 then .error .zeroDivisor else .ok (a / b)

def mod (a b : Nat) : Checked Nat := if b = 0 then .error .zeroDivisor else .ok (a % b)

def shiftRight (width a amount : Nat) : Checked Nat :=
  if amount < width then .ok (a >>> amount) else .error .overflow

theorem add_eq {size a b : Nat} (h : a + b < size) : add size a b = .ok (a + b) := if_pos h

theorem mul_eq {size a b : Nat} (h : a * b < size) : mul size a b = .ok (a * b) := if_pos h

theorem sub_eq {a b : Nat} (h : b ≤ a) : sub a b = .ok (a - b) := if_pos h

theorem div_eq {a b : Nat} (h : 0 < b) : div a b = .ok (a / b) := if_neg (Nat.ne_of_gt h)

theorem mod_eq {a b : Nat} (h : 0 < b) : mod a b = .ok (a % b) := if_neg (Nat.ne_of_gt h)

theorem shiftRight_eq {width amount : Nat} (h : amount < width) (a : Nat) :
    shiftRight width a amount = .ok (a >>> amount) := if_pos h

def get (xs : Vector α n) (i : Nat) : Checked α :=
  if h : i < n then .ok xs[i] else .error .outOfBounds

def set (xs : Vector α n) (i : Nat) (a : α) : Checked (Vector α n) :=
  if h : i < n then .ok (xs.set i a) else .error .outOfBounds

def getList (xs : List α) (i : Nat) : Checked α :=
  match xs[i]? with
  | some a => .ok a
  | none => .error .outOfBounds

def slice (xs : List α) (first last : Nat) : Checked (List α) :=
  if first ≤ last ∧ last ≤ xs.length then .ok ((xs.take last).drop first)
  else .error .outOfBounds

/-- Replace the elements from `first` to before `last` by as many others. -/
def copyFrom (xs : Vector α n) (first last : Nat) (source : List α) : Checked (Vector α n) :=
  if first ≤ last ∧ last ≤ n ∧ source.length = last - first then
    .ok (.ofFn fun i => if first ≤ i.val then source[i.val - first]?.getD xs[i] else xs[i])
  else .error .outOfBounds

/-- Copy the elements from `first` to before `last` to where `target` is the first, all at once. -/
def copyWithin (xs : Vector α n) (first last target : Nat) : Checked (Vector α n) :=
  if first ≤ last ∧ last ≤ n ∧ target + (last - first) ≤ n then
    .ok (.ofFn fun i =>
      if target ≤ i.val ∧ i.val < target + (last - first) then
        xs[first + (i.val - target)]?.getD xs[i]
      else xs[i])
  else .error .outOfBounds

def fill (xs : Vector α n) (first last : Nat) (a : α) : Checked (Vector α n) :=
  if first ≤ last ∧ last ≤ n then
    .ok (.ofFn fun i => if first ≤ i.val ∧ i.val < last then a else xs[i])
  else .error .outOfBounds

theorem get_eq (xs : Vector α n) {i : Nat} (h : i < n) : get xs i = .ok xs[i] := dif_pos h

theorem set_eq (xs : Vector α n) {i : Nat} (h : i < n) (a : α) : set xs i a = .ok (xs.set i a) :=
  dif_pos h

theorem getList_eq {xs : List α} {i : Nat} (h : i < xs.length) : getList xs i = .ok xs[i] := by
  rw [getList, List.getElem?_eq_getElem h]

theorem slice_eq (xs : List α) {first last : Nat} (h : first ≤ last) (hl : last ≤ xs.length) :
    slice xs first last = .ok ((xs.take last).drop first) := if_pos ⟨h, hl⟩

theorem copyWithin_eq (xs : Vector α n) {first last target : Nat} (h : first ≤ last)
    (hl : last ≤ n) (ht : target + (last - first) ≤ n) :
    copyWithin xs first last target = .ok (.ofFn fun i =>
      if target ≤ i.val ∧ i.val < target + (last - first) then
        xs[first + (i.val - target)]?.getD xs[i]
      else xs[i]) := if_pos ⟨h, hl, ht⟩

theorem fill_eq (xs : Vector α n) {first last : Nat} (h : first ≤ last) (hl : last ≤ n) (a : α) :
    fill xs first last a =
      .ok (.ofFn fun i => if first ≤ i.val ∧ i.val < last then a else xs[i]) := if_pos ⟨h, hl⟩

theorem copyFrom_eq (xs : Vector α n) {first last : Nat} {source : List α} (h : first ≤ last)
    (hl : last ≤ n) (hs : source.length = last - first) :
    copyFrom xs first last source = .ok (.ofFn fun i =>
      if first ≤ i.val then source[i.val - first]?.getD xs[i] else xs[i]) := if_pos ⟨h, hl, hs⟩

theorem mapM_eq {xs : List α} {f : α → Checked β} {g : α → β} (h : ∀ a ∈ xs, f a = .ok (g a)) :
    xs.mapM f = .ok (xs.map g) := by
  induction xs with
  | nil => rfl
  | cons a rest ih =>
    obtain ⟨ha, hrest⟩ := List.forall_mem_cons.1 h
    rw [List.mapM_cons, ha, ok_bind, ih hrest]
    rfl

def setFirst (xs : Vector α n) (count : Nat) (element : Nat → Checked α) :
    Checked (Vector α n) :=
  (List.range count).foldlM (fun xs i => do set xs i (← element i)) xs

theorem setFirst_eq (xs : Vector α n) {count : Nat} {element : Nat → Checked α} {f : Nat → α}
    (hn : count ≤ n) (h : ∀ i < count, element i = .ok (f i)) :
    setFirst xs count element = .ok (.ofFn fun i => if i.val < count then f i else xs[i]) := by
  induction count with
  | zero =>
    simp only [setFirst, List.range_zero, List.foldlM_nil, pure_eq_ok]
    congr 1
    ext i hi
    simp
  | succ count ih =>
    have hprefix := ih (Nat.le_of_succ_le hn) fun i hi => h i (Nat.lt_succ_of_lt hi)
    simp only [setFirst] at hprefix ⊢
    rw [List.range_succ, List.foldlM_append, hprefix, ok_bind, List.foldlM_cons,
      h count (Nat.lt_succ_self count), ok_bind, set_eq _ hn]
    simp only [ok_bind, List.foldlM_nil, pure_eq_ok]
    congr 1
    ext i hi
    simp only [Vector.getElem_set, Vector.getElem_ofFn]
    by_cases hc : count = i
    · simp [hc]
    · have : i < count + 1 ↔ i < count := by omega
      simp [hc, this]

end Checked
end Chip8
