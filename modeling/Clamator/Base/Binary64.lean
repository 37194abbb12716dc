import Mathlib.Data.Nat.Log
import Mathlib.Tactic.Ring

/-!
# Integers as binary64 values

A decimal integer becomes the nearest double, ties to even: 53 significant bits
are kept and the rest is rounded away. Integers past the largest double become
an infinity. `roundNat` is the rounding of a magnitude; the integers it fixes
are the ones a double holds exactly.
-/

namespace Clamator.Base.Binary64

/-- The unit in the last place of a magnitude: what its lowest of 53 bits weighs. -/
def ulp (n : ℕ) : ℕ := 2^(n.log2-52)

def roundNat (n : ℕ) : ℕ :=
  let q := n/ulp n
  let r := n%ulp n
  (if 2*r < ulp n ∨ (2*r=ulp n ∧ q%2=0) then q else q+1)*ulp n

theorem ulp_pos (n : ℕ) : 0 < ulp n := Nat.two_pow_pos _

theorem roundNat_of_dvd (n : ℕ) (h : ulp n∣n) : roundNat n=n := by
  have hr : n%ulp n=0 := Nat.mod_eq_zero_of_dvd h
  have hp := ulp_pos n
  simp only [roundNat,hr,Nat.mul_zero,hp,true_or,if_true]
  exact Nat.div_mul_cancel h

/- A 53-bit mantissa scaled by a power of two, the mantissa `2^53` included
(the carry out of a rounded-up 53-bit mantissa). -/
theorem roundNat_scaled (m e : ℕ) (hm : m ≤ 2^53) : roundNat (m*2^e)=m*2^e := by
  apply roundNat_of_dvd
  rcases Nat.lt_or_eq_of_le hm with hlt | heq
  · have hexp : (m*2^e).log2-52 ≤ e := by
      rcases Nat.eq_zero_or_pos (m*2^e) with h0 | hpos
      · simp [h0]
      · have hb : m*2^e < 2^(53+e) := by
          rw [Nat.pow_add]
          exact Nat.mul_lt_mul_of_pos_right hlt (Nat.two_pow_pos e)
        have hl := (Nat.log2_lt (by omega)).mpr hb
        omega
    exact Dvd.dvd.mul_left (Nat.pow_dvd_pow 2 hexp) m
  · have hpow : m*2^e=2^(53+e) := by rw [heq,Nat.pow_add]
    rw [hpow]
    have hl : (2^(53+e)).log2=53+e := Nat.log2_two_pow
    exact Nat.pow_dvd_pow 2 (by rw [hl]; omega)

theorem mantissa_lt (n : ℕ) : n/ulp n < 2^53 := by
  rcases Nat.eq_zero_or_pos n with h0 | hpos
  · subst n; decide
  · rw [Nat.div_lt_iff_lt_mul (ulp_pos n)]
    have hl : n < 2^(n.log2+1) := Nat.lt_log2_self
    refine hl.trans_le ?_
    rw [ulp,← Nat.pow_add]
    exact Nat.pow_le_pow_right (by decide) (by omega)

theorem roundNat_idem (n : ℕ) : roundNat (roundNat n)=roundNat n := by
  have hm := mantissa_lt n
  unfold roundNat
  dsimp only
  split
  · exact roundNat_scaled _ _ (by omega)
  · exact roundNat_scaled _ _ (by omega)

/-- An integer that a double holds exactly; from `2^1024` on there is none. -/
def Exact (n : ℤ) : Prop := roundNat n.natAbs=n.natAbs ∧ n.natAbs.log2 < 1024

instance (n : ℤ) : Decidable (Exact n) := inferInstanceAs (Decidable (_ ∧ _))

/-- A double: an integer it holds exactly, the zero with a sign, a dyadic fraction
`m/2^(k+1)`, an infinity or NaN. -/
inductive Double where
  | integral (n : ℤ) (exact : Exact n)
  | negativeZero
  | fractional (m : ℤ) (k : ℕ)
  | infinity (negative : Bool)
  | nan
  deriving DecidableEq

def Double.isFinite : Double → Bool
  | .integral _ _ => true
  | .negativeZero => true
  | .fractional _ _ => true
  | .infinity _ => false
  | .nan => false

/-- The value of a double: the two zeros compare equal. -/
def Double.value : Double → Double
  | .negativeZero => .integral 0 (by decide)
  | x => x

theorem Double.value_of_ne (x : Double) (h : x≠.negativeZero) : x.value=x := by
  cases x with
  | negativeZero => exact (h rfl).elim
  | _ => rfl

def signed (n : ℤ) (m : ℕ) : ℤ := if n < 0 then -m else m

theorem signed_natAbs (n : ℤ) (m : ℕ) : (signed n m).natAbs=m := by
  unfold signed
  split <;> simp

theorem signed_self (n : ℤ) : signed n n.natAbs=n := by
  unfold signed
  split <;> omega

theorem signed_exact (n : ℤ) (h : (roundNat n.natAbs).log2 < 1024) :
    Exact (signed n (roundNat n.natAbs)) := by
  simp only [Exact,signed_natAbs]
  exact ⟨roundNat_idem _,h⟩

/-- The double nearest to an integer literal. -/
def ofInt (n : ℤ) : Double :=
  if h : (roundNat n.natAbs).log2 < 1024 then .integral (signed n (roundNat n.natAbs)) (signed_exact n h)
  else .infinity (decide (n < 0))

theorem ofInt_exact (n : ℤ) (h : Exact n) : ofInt n=.integral n h := by
  have hlt : (roundNat n.natAbs).log2 < 1024 := by
    rw [h.1]
    exact h.2
  have hs : signed n (roundNat n.natAbs)=n := by
    rw [h.1]
    exact signed_self n
  simp only [ofInt,hlt,dite_true,hs]

example : ¬Exact (2^53+1) := by decide
example : Exact (2^53+2) := by decide

/-! ### Decimal digits

A runtime prints the decimal number with the fewest digits that is read back as the double. Of
an integral one below `10^21` these digits are padded with zeros. -/

/-- The multiples of `p` around `n`, the nearer one first; of two at the same distance the even
multiple. -/
def around (n p : ℕ) : List ℕ :=
  let q := n/p
  let r := n%p
  if 2*r < p ∨ (2*r=p ∧ q%2=0) then [q*p,(q+1)*p] else [(q+1)*p,q*p]

/-- The number of at most 21 digits with the most zeros at its end that is read as `n`. -/
def shortest (n : ℕ) : ℕ :=
  (((List.range 22).reverse.flatMap fun k => around n (10^k)).find? fun m => roundNat m==n).getD n

theorem roundNat_shortest (n : ℕ) (h : roundNat n=n) : roundNat (shortest n)=n := by
  unfold shortest
  cases hf : ((List.range 22).reverse.flatMap fun k => around n (10^k)).find? fun m => roundNat m==n with
  | none => exact h
  | some m => simpa using List.find?_some hf

theorem around_le (n p m : ℕ) (h : m∈around n p) : m ≤ n+p := by
  have hq : n/p*p ≤ n := Nat.div_mul_le_self n p
  have hq' : (n/p+1)*p=n/p*p+p := Nat.succ_mul _ _
  unfold around at h
  dsimp only at h
  split at h
  all_goals
    simp only [List.mem_cons,List.not_mem_nil,or_false] at h
    omega

theorem shortest_le (n : ℕ) : shortest n ≤ n+10^21 := by
  unfold shortest
  cases hf : ((List.range 22).reverse.flatMap fun k => around n (10^k)).find? fun m => roundNat m==n with
  | none => exact Nat.le_add_right _ _
  | some m =>
    obtain ⟨k,hk,hm⟩ := List.mem_flatMap.mp (List.mem_of_find?_eq_some hf)
    have hk : k < 22 := List.mem_range.mp (List.mem_reverse.mp hk)
    have hpow : 10^k ≤ 10^21 := Nat.pow_le_pow_right (by decide) (by omega)
    exact (around_le n (10^k) m hm).trans (Nat.add_le_add_left hpow n)

theorem ulp_small (n : ℕ) (h : n < 2^53) : ulp n=1 := by
  have hl : n.log2 < 53 := by
    rcases Nat.eq_zero_or_pos n with rfl | hpos
    · decide
    · exact (Nat.log2_lt (by omega)).mpr h
  have he : n.log2-52=0 := by omega
  rw [ulp,he,Nat.pow_zero]

/- Rounding does not leave the binade. -/
theorem le_roundNat (n : ℕ) (h : 2^53 ≤ n) : 2^53 ≤ roundNat n := by
  have hn : n≠0 := by omega
  have hl : 53 ≤ n.log2 := (Nat.le_log2 hn).mpr h
  have hq : 2^52 ≤ n/ulp n := by
    rw [Nat.le_div_iff_mul_le (ulp_pos n),ulp,← Nat.pow_add]
    have he : 52+(n.log2-52)=n.log2 := by omega
    rw [he]
    exact Nat.log2_self_le hn
  have hu : 2 ≤ ulp n := by
    have hp : 2^1 ≤ 2^(n.log2-52) := Nat.pow_le_pow_right (by decide) (by omega)
    simpa [ulp] using hp
  have hmul : 2^52*2 ≤ n/ulp n*ulp n := Nat.mul_le_mul hq hu
  unfold roundNat
  dsimp only
  split
  · omega
  · rw [Nat.add_mul]
    omega

/- Below `2^53` every integer is a double, and prints its own digits. -/
theorem shortest_small (n : ℕ) (h : n < 2^53) : shortest n=n := by
  have hself : roundNat n=n := roundNat_of_dvd n (by rw [ulp_small n h]; exact Nat.one_dvd n)
  have hround := roundNat_shortest n hself
  by_cases hs : shortest n < 2^53
  · have hd : ulp (shortest n)∣shortest n := by
      rw [ulp_small _ hs]
      exact Nat.one_dvd _
    exact (roundNat_of_dvd _ hd).symm.trans hround
  · have hle := le_roundNat _ (Nat.not_lt.mp hs)
    omega

theorem ofInt_shortest (n : ℤ) (h : Exact n) :
    ofInt (signed n (shortest n.natAbs))=.integral n h := by
  have hround := roundNat_shortest n.natAbs h.1
  have hneg : signed n (shortest n.natAbs) < 0 ↔ n < 0 := by
    have hzero : shortest n.natAbs=0 → n.natAbs=0 := fun hz => by
      rw [← hround,hz]
      decide
    unfold signed
    split <;> omega
  have hsigned : signed (signed n (shortest n.natAbs)) n.natAbs=n := by
    have he : signed (signed n (shortest n.natAbs)) n.natAbs=signed n n.natAbs := by
      simp only [signed] at hneg ⊢
      simp only [hneg]
    rw [he,signed_self]
  simp only [ofInt,signed_natAbs,hround,h.2,dite_true,hsigned]

example : shortest (2^60)=1152921504606847000 := by decide

end Clamator.Base.Binary64
