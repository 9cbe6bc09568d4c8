import HashMiner.Foundation.Keccak.Permutation
import HashMiner.Kernel.Device
import Mathlib.Tactic.FinCases

/-!
# The in-place permutation

`keccakF1600Arr` works on one array. `theta` adds a word to each column, `rho` and
`pi` are fused into one walk that carries a lane in a temporary, `chi` rewrites
row by row. Each step is compared with the step mapping on lanes `(x, y)`.
-/

namespace HashMiner.Kernel

open Foundation.Keccak

def RC : Vector U64 24 := #v[
  0x0000000000000001, 0x0000000000008082, 0x800000000000808A, 0x8000000080008000,
  0x000000000000808B, 0x0000000080000001, 0x8000000080008081, 0x8000000000008009,
  0x000000000000008A, 0x0000000000000088, 0x0000000080008009, 0x000000008000000A,
  0x000000008000808B, 0x800000000000008B, 0x8000000000008089, 0x8000000000008003,
  0x8000000000008002, 0x8000000000000080, 0x000000000000800A, 0x800000008000000A,
  0x8000000080008081, 0x8000000000008080, 0x0000000080000001, 0x8000000080008008]

/-- `st[i] ^= t` for each listed lane, in order. -/
def xorLanes (t : U64) : State → List (Fin 25) → State
  | st, [] => st
  | st, i :: is => xorLanes t (put st i (st.get i ^^^ t)) is

def thetaArr (st : State) : State :=
  let bc0 := st.get 0 ^^^ st.get 5 ^^^ st.get 10 ^^^ st.get 15 ^^^ st.get 20
  let bc1 := st.get 1 ^^^ st.get 6 ^^^ st.get 11 ^^^ st.get 16 ^^^ st.get 21
  let bc2 := st.get 2 ^^^ st.get 7 ^^^ st.get 12 ^^^ st.get 17 ^^^ st.get 22
  let bc3 := st.get 3 ^^^ st.get 8 ^^^ st.get 13 ^^^ st.get 18 ^^^ st.get 23
  let bc4 := st.get 4 ^^^ st.get 9 ^^^ st.get 14 ^^^ st.get 19 ^^^ st.get 24
  let st := xorLanes (bc4 ^^^ rol64 bc1 1) st [0, 5, 10, 15, 20]
  let st := xorLanes (bc0 ^^^ rol64 bc2 1) st [1, 6, 11, 16, 21]
  let st := xorLanes (bc1 ^^^ rol64 bc3 1) st [2, 7, 12, 17, 22]
  let st := xorLanes (bc2 ^^^ rol64 bc4 1) st [3, 8, 13, 18, 23]
  xorLanes (bc3 ^^^ rol64 bc0 1) st [4, 9, 14, 19, 24]

/-- `tmp = st[i]; st[i] = ROL64(t, n); t = tmp` for each listed lane and distance. -/
def chase : State → U64 → List (Fin 25 × U32) → State
  | st, _, [] => st
  | st, t, (i, n) :: rest => chase (put st i (rol64 t n)) (st.get i) rest

def rhoPiChain : List (Fin 25 × U32) :=
  [(10, 1), (7, 3), (11, 6), (17, 10), (18, 15), (3, 21), (5, 28), (16, 36), (8, 45), (21, 55),
    (24, 2), (4, 14), (15, 27), (23, 41), (19, 56), (13, 8), (12, 25), (2, 43), (20, 62), (14, 18),
    (22, 39), (9, 61), (6, 20), (1, 44)]

def rhoPiArr (st : State) : State := chase st (st.get 1) rhoPiChain

def chiRow (st : State) (a b c d e : Fin 25) : State :=
  let bc0 := st.get a
  let bc1 := st.get b
  let bc2 := st.get c
  let bc3 := st.get d
  let bc4 := st.get e
  let st := put st a (bc0 ^^^ (~~~bc1 &&& bc2))
  let st := put st b (bc1 ^^^ (~~~bc2 &&& bc3))
  let st := put st c (bc2 ^^^ (~~~bc3 &&& bc4))
  let st := put st d (bc3 ^^^ (~~~bc4 &&& bc0))
  put st e (bc4 ^^^ (~~~bc0 &&& bc1))

def chiArr (st : State) : State :=
  let st := chiRow st 0 1 2 3 4
  let st := chiRow st 5 6 7 8 9
  let st := chiRow st 10 11 12 13 14
  let st := chiRow st 15 16 17 18 19
  chiRow st 20 21 22 23 24

def roundArr (st : State) (r : Fin 24) : State :=
  let st := chiArr (rhoPiArr (thetaArr st))
  put st 0 (st.get 0 ^^^ RC.get r)

def keccakF1600Arr (st : State) : State := (List.finRange 24).foldl roundArr st

theorem state_ext {a b : State} (h : ∀ x y, lane a x y = lane b x y) : a = b := by
  apply Vector.ext
  intro i hi
  have here := h ⟨i % 5, by omega⟩ ⟨i / 5, by omega⟩
  have whole : position ⟨i % 5, by omega⟩ ⟨i / 5, by omega⟩ = ⟨i, hi⟩ :=
    Fin.ext (Nat.div_add_mod i 5)
  rw [lane, lane, whole] at here
  exact here

@[simp] theorem lane_ofLanes (f : Fin 5 → Fin 5 → Lane) (x y : Fin 5) :
    lane (ofLanes f) x y = f x y := by
  have col : (5 * y.val + x.val) % 5 = x.val := by omega
  have row : (5 * y.val + x.val) / 5 = y.val := by omega
  simp [lane, position, get_ofLanes, col, row]

theorem get_xorLanes (t : U64) (st : State) {is : List (Fin 25)} (distinct : is.Nodup)
    (j : Fin 25) : (xorLanes t st is).get j = if j ∈ is then st.get j ^^^ t else st.get j := by
  induction is generalizing st with
  | nil => simp [xorLanes]
  | cons i is ih =>
    obtain ⟨absent, distinct⟩ := List.nodup_cons.mp distinct
    rw [xorLanes, ih _ distinct, get_put]
    by_cases same : j = i
    · subst same
      simp [absent]
    · simp [same]

/-- Where the walk from `p` takes the new content of lane `i`: the lane visited
before it, and the distance. -/
def carried (p : Fin 25) (i : Fin 25) : List (Fin 25 × U32) → Option (Fin 25 × U32)
  | [] => none
  | (j, n) :: rest => if i = j then some (p, n) else carried j i rest

theorem carried_of_notMem {p i : Fin 25} {chain : List (Fin 25 × U32)}
    (absent : i ∉ chain.map Prod.fst) : carried p i chain = none := by
  induction chain generalizing p with
  | nil => rfl
  | cons link rest ih =>
    simp only [List.map_cons, List.mem_cons, not_or] at absent
    rw [carried, if_neg absent.1, ih absent.2]

/-- The lanes still ahead hold what they held in `a`, and the temporary holds the
lane of `a` visited last; so every lane written receives a lane of `a`. -/
theorem get_chase (a : State) {st : State} {t : U64} {p : Fin 25}
    {chain : List (Fin 25 × U32)} (distinct : (chain.map Prod.fst).Nodup)
    (ahead : ∀ k ∈ chain.map Prod.fst, st.get k = a.get k) (temporary : t = a.get p) (i : Fin 25) :
    (chase st t chain).get i =
      (carried p i chain).elim (st.get i) fun q => rol64 (a.get q.1) q.2 := by
  induction chain generalizing st t p with
  | nil => rfl
  | cons link rest ih =>
    obtain ⟨j, n⟩ := link
    obtain ⟨absent, distinct⟩ := List.nodup_cons.mp distinct
    have untouched : ∀ k ∈ rest.map Prod.fst, (put st j (rol64 t n)).get k = a.get k := by
      intro k hk
      have other : k ≠ j := fun same => absent (same ▸ hk)
      rw [get_put, if_neg other, ahead k (List.mem_cons_of_mem _ hk)]
    rw [chase, ih distinct untouched (ahead j List.mem_cons_self), get_put, carried]
    by_cases here : i = j
    · subst here
      rw [carried_of_notMem absent, if_pos rfl, if_pos rfl, temporary]
      rfl
    · rw [if_neg here, if_neg here]

theorem rhoPiChain_distinct : (rhoPiChain.map Prod.fst).Nodup := by decide

/-- The table of the walk: lane `(x, y)` receives the lane that `pi` moves there,
rotated by the offset of `rho`; only the origin is never visited. -/
theorem carried_rhoPiChain : ∀ x y : Fin 5,
    carried 1 (position x y) rhoPiChain =
      if (x, y) = (0, 0) then none
      else some (position (x + 3 * y) x, BitVec.ofNat 32 (rhoOffset (x + 3 * y) x % 64)) := by
  decide

theorem rhoPiArr_eq (st : State) : rhoPiArr st = pi (rho st) := by
  apply state_ext
  intro x y
  have moved := get_chase st rhoPiChain_distinct (fun _ _ => rfl)
    (rfl : st.get 1 = st.get 1) (position x y)
  rw [carried_rhoPiChain] at moved
  simp only [pi, rho, lane_ofLanes]
  rw [lane, rhoPiArr, moved]
  split
  · next origin =>
    obtain ⟨rfl, rfl⟩ := Prod.mk.inj origin
    have still : rhoOffset (0 + 3 * 0) 0 = 0 := by decide
    have unmoved : ∀ w : Lane, w.rotateLeft 0 = w := by
      intro w
      apply BitVec.eq_of_getLsbD_eq
      intro i hi
      simp [hi]
    rw [still, unmoved]
    rfl
  · next away =>
    have small : rhoOffset (x + 3 * y) x % 64 < 64 := Nat.mod_lt _ (by decide)
    have width : (BitVec.ofNat 32 (rhoOffset (x + 3 * y) x % 64)).toNat =
        rhoOffset (x + 3 * y) x % 64 := by
      rw [BitVec.toNat_ofNat, Nat.mod_eq_of_lt (by omega)]
    rw [Option.elim_some, rol64_eq_rotateLeft _ _ (lt_of_eq_of_lt width small), width,
      BitVec.rotateLeft_mod_eq_rotateLeft, lane]

theorem lane_xorLanes (t : U64) (st : State) {is : List (Fin 25)} {c : Fin 5}
    (distinct : is.Nodup) (column : ∀ x y, position x y ∈ is ↔ x = c) (x y : Fin 5) :
    lane (xorLanes t st is) x y = if x = c then lane st x y ^^^ t else lane st x y := by
  rw [lane, get_xorLanes t st distinct]
  simp only [column, lane]

theorem thetaArr_eq (st : State) : thetaArr st = theta st := by
  apply state_ext
  intro x y
  have rotation (w : U64) : rol64 w 1 = w.rotateLeft 1 := rol64_eq_rotateLeft w 1 (by decide)
  simp only [theta, lane_ofLanes, thetaArr, rotation]
  rw [lane_xorLanes (c := 4) _ _ (by decide) (by decide),
    lane_xorLanes (c := 3) _ _ (by decide) (by decide),
    lane_xorLanes (c := 2) _ _ (by decide) (by decide),
    lane_xorLanes (c := 1) _ _ (by decide) (by decide),
    lane_xorLanes (c := 0) _ _ (by decide) (by decide)]
  fin_cases x <;> rfl

theorem position_inj : ∀ x x' y y' : Fin 5, position x y = position x' y' ↔ x = x' ∧ y = y' := by
  decide

/-- One row: its five lanes are read before the first is written. -/
theorem lane_chiRow (st : State) (row x y : Fin 5) :
    lane (chiRow st (position 0 row) (position 1 row) (position 2 row) (position 3 row)
      (position 4 row)) x y =
      if y = row then lane st x y ^^^ (~~~lane st (x + 1) y &&& lane st (x + 2) y)
      else lane st x y := by
  simp only [lane, chiRow, get_put, position_inj]
  by_cases here : y = row
  · simp only [here, and_true, if_true]
    fin_cases x <;> rfl
  · simp [here]

theorem chiArr_eq (st : State) : chiArr st = chi st := by
  apply state_ext
  intro x y
  have rows : chiArr st = (List.finRange 5).foldl (fun st row =>
      chiRow st (position 0 row) (position 1 row) (position 2 row) (position 3 row)
        (position 4 row)) st := rfl
  have five : List.finRange 5 = [0, 1, 2, 3, 4] := by decide
  simp only [rows, five, List.foldl_cons, List.foldl_nil, lane_chiRow, chi, lane_ofLanes]
  fin_cases y <;> rfl

theorem RC_eq : ∀ r : Fin 24, RC.get r = roundConstant r.val := by decide +kernel

theorem roundArr_eq (st : State) (r : Fin 24) :
    roundArr st r = Foundation.Keccak.round st r.val := by
  simp only [roundArr, Foundation.Keccak.round, Foundation.Keccak.iota, thetaArr_eq, rhoPiArr_eq,
    chiArr_eq, RC_eq]

/-- The unrolled, in-place permutation is Keccak-f[1600]. -/
theorem keccakF1600Arr_eq_permute (st : State) : keccakF1600Arr st = permute st := by
  have rounds : List.range 24 = (List.finRange 24).map Fin.val := by decide
  rw [keccakF1600Arr, permute, rounds, List.foldl_map]
  simp only [funext₂ roundArr_eq]

theorem rhoPiChain_distances : ∀ link ∈ rhoPiChain, link.2.toNat < 64 := by simp [rhoPiChain]

/-- Every `rol64` of the permutation is a rotation, and the whole is Keccak-f[1600]. -/
theorem keccakF1600Arr_refines :
    (∀ (x : U64) (n : U32), n.toNat < 64 → rol64 x n = x.rotateLeft n.toNat) ∧
      (∀ link ∈ rhoPiChain, link.2.toNat < 64) ∧ ∀ st, keccakF1600Arr st = permute st :=
  ⟨rol64_eq_rotateLeft, rhoPiChain_distances, keccakF1600Arr_eq_permute⟩

end HashMiner.Kernel
