import HashMiner.Foundation.Bytes
import Mathlib.Data.Fintype.Basic

/-!
# The permutation Keccak-f[1600]

The five step mappings on lanes indexed by `(x, y)`, coordinates taken modulo
five. The offsets of `rho` come from the walk `(x, y) ↦ (y, 2x + 3y)` and the
round constants from the linear feedback shift register; neither is tabulated.
-/

namespace HashMiner.Foundation.Keccak

abbrev Lane := BitVec 64

/-- The lane `(x, y)` is stored at `5y + x`. -/
abbrev State := Vector Lane 25

instance neZero_lanes : NeZero 25 := ⟨by decide⟩

def put (a : State) (i : Fin 25) (v : Lane) : State := a.set i.val v

theorem get_put (a : State) (i j : Fin 25) (v : Lane) :
    (put a i v).get j = if j = i then v else a.get j := by
  change (a.set i.val v)[j.val] = if j = i then v else a[j.val]
  simp only [Vector.getElem_set, Fin.val_inj, eq_comm]

def position (x y : Fin 5) : Fin 25 := ⟨5 * y.val + x.val, by omega⟩

def lane (a : State) (x y : Fin 5) : Lane := a.get (position x y)

def ofLanes (f : Fin 5 → Fin 5 → Lane) : State :=
  Vector.ofFn fun i => f ⟨i.val % 5, by omega⟩ ⟨i.val / 5, by omega⟩

theorem get_ofLanes (f : Fin 5 → Fin 5 → Lane) (i : Fin 25) :
    (ofLanes f).get i = f ⟨i.val % 5, by omega⟩ ⟨i.val / 5, by omega⟩ :=
  Vector.getElem_ofFn i.isLt

def column (a : State) (x : Fin 5) : Lane :=
  lane a x 0 ^^^ lane a x 1 ^^^ lane a x 2 ^^^ lane a x 3 ^^^ lane a x 4

def theta (a : State) : State :=
  ofLanes fun x y => lane a x y ^^^ (column a (x - 1) ^^^ (column a (x + 1)).rotateLeft 1)

def walk : Nat → Fin 5 × Fin 5
  | 0 => (1, 0)
  | t + 1 => ((walk t).2, 2 * (walk t).1 + 3 * (walk t).2)

/-- The lane that the walk visits at time `t` is rotated by `(t + 1)(t + 2) / 2`;
the walk never visits the origin. -/
def rhoOffset (x y : Fin 5) : Nat :=
  ((List.range 24).find? fun t => walk t = (x, y)).elim 0 fun t => (t + 1) * (t + 2) / 2

def rho (a : State) : State := ofLanes fun x y => (lane a x y).rotateLeft (rhoOffset x y)

def pi (a : State) : State := ofLanes fun x y => lane a (x + 3 * y) x

def chi (a : State) : State :=
  ofLanes fun x y => lane a x y ^^^ (~~~lane a (x + 1) y &&& lane a (x + 2) y)

/-- One shift of the register with feedback polynomial `x^8 + x^6 + x^5 + x^4 + 1`. -/
def shiftRegister (r : BitVec 8) : BitVec 8 := r <<< 1 ^^^ if r.msb then 0x71 else 0

def lfsr : Nat → BitVec 8
  | 0 => 1
  | n + 1 => shiftRegister (lfsr n)

def roundConstant (r : Nat) : Lane :=
  (List.range 7).foldl (fun constant j =>
    if (lfsr ((j + 7 * r) % 255)).getLsbD 0 then constant ||| 1 <<< (2 ^ j - 1) else constant) 0

def iota (a : State) (r : Nat) : State := put a 0 (a.get 0 ^^^ roundConstant r)

def round (a : State) (r : Nat) : State := iota (chi (pi (rho (theta a)))) r

def permute (a : State) : State := (List.range 24).foldl round a

end HashMiner.Foundation.Keccak
