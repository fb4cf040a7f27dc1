import CalcScript.Proofs.FloatOrder

set_option autoImplicit false

namespace CalcScript.Binary64

open Float.Model (UnpackedFloat)

variable {x : Float} {bits : Nat}

theorem toNat_toBits (x : Float) :
    x.toBits.toNat = (if isNegative x then 2 ^ 63 else 0) + sizeBits x := by
  have below := x.toBits.toNat_lt
  have power : Nat.pow 2 63 = 2 ^ 63 := rfl
  simp only [isNegative, sizeBits, power, decide_eq_true_eq]
  split <;> omega

theorem ofSizeBits_sizeBits (x : Float) : ofSizeBits (isNegative x) (sizeBits x) = x := by
  have whole : (if isNegative x then Nat.pow 2 63 + sizeBits x else sizeBits x) =
      x.toBits.toNat := by
    rw [toNat_toBits]
    cases isNegative x <;> simp
  rw [ofSizeBits, whole, UInt64.ofNat_toNat, Float.ofBits_toBits]

section

variable {b c : BitVec 64}

theorem unpackSign_toNat (b : BitVec 64) :
    (@UnpackedFloat.unpackSign .binary64 b).toNat = b.toNat / 2 ^ 63 := by
  have below := b.isLt
  rw [UnpackedFloat.unpackSign_def, BitVec.extractLsb'_toNat, Nat.shiftRight_eq_div_pow]
  change b.toNat / 2 ^ 63 % 2 ^ 1 = _
  omega

theorem unpackExponent_toNat (b : BitVec 64) :
    (@UnpackedFloat.unpackExponent .binary64 b).toNat = b.toNat / 2 ^ 52 % 2 ^ 11 := by
  rw [UnpackedFloat.unpackExponent_def, BitVec.extractLsb'_toNat, Nat.shiftRight_eq_div_pow]

theorem unpackMantissa_toNat (b : BitVec 64) :
    (@UnpackedFloat.unpackMantissa .binary64 b).toNat = b.toNat % 2 ^ 52 := by
  rw [UnpackedFloat.unpackMantissa_def, BitVec.extractLsb'_toNat, Nat.shiftRight_eq_div_pow]
  change b.toNat / 2 ^ 0 % 2 ^ 52 = _
  rw [pow_zero, Nat.div_one]

theorem unpackSign_of_lt (positive : b.toNat < 2 ^ 63) :
    @UnpackedFloat.unpackSign .binary64 b = 0#1 := by
  apply BitVec.eq_of_toNat_eq
  rw [unpackSign_toNat]
  simp
  omega

theorem unpackSign_of_le (negative : 2 ^ 63 ≤ b.toNat) :
    @UnpackedFloat.unpackSign .binary64 b = 1#1 := by
  have below := b.isLt
  apply BitVec.eq_of_toNat_eq
  rw [unpackSign_toNat]
  simp
  omega

theorem unpack_of_size (same : b.toNat % 2 ^ 63 = c.toNat % 2 ^ 63) :
    @UnpackedFloat.unpackExponent .binary64 b = @UnpackedFloat.unpackExponent .binary64 c ∧
      @UnpackedFloat.unpackMantissa .binary64 b = @UnpackedFloat.unpackMantissa .binary64 c := by
  constructor
  · apply BitVec.eq_of_toNat_eq
    rw [unpackExponent_toNat, unpackExponent_toNat]
    omega
  · apply BitVec.eq_of_toNat_eq
    rw [unpackMantissa_toNat, unpackMantissa_toNat]
    omega

theorem unpack_abs (same : b.toNat % 2 ^ 63 = c.toNat % 2 ^ 63) (positive : c.toNat < 2 ^ 63) :
    UnpackedFloat.unpack .binary64 c = (UnpackedFloat.unpack .binary64 b).abs := by
  obtain ⟨exponent, mantissa⟩ := unpack_of_size same
  simp only [UnpackedFloat.unpack, unpackSign_of_lt positive, exponent, mantissa]
  split
  · split <;> rfl
  · split
    · split <;> rfl
    · rfl

theorem unpack_neg (same : b.toNat % 2 ^ 63 = c.toNat % 2 ^ 63) (positive : b.toNat < 2 ^ 63)
    (negative : 2 ^ 63 ≤ c.toNat) :
    UnpackedFloat.unpack .binary64 c = (UnpackedFloat.unpack .binary64 b).neg := by
  obtain ⟨exponent, mantissa⟩ := unpack_of_size same
  simp only [UnpackedFloat.unpack, unpackSign_of_lt positive, unpackSign_of_le negative, exponent,
    mantissa]
  split
  · split <;> rfl
  · split
    · split <;> rfl
    · rfl

end

theorem isNaN_of_isFinite (finite : x.isFinite = true) : x.isNaN = false ∧ x.isInf = false := by
  change (UnpackedFloat.unpack .binary64 x.toBits.toBitVec).isFinite = true at finite
  change (UnpackedFloat.unpack .binary64 x.toBits.toBitVec).isNaN = false ∧
    (UnpackedFloat.unpack .binary64 x.toBits.toBitVec).isInf = false
  generalize UnpackedFloat.unpack .binary64 x.toBits.toBitVec = u at finite ⊢
  cases u with
  | zero | finite => exact ⟨rfl, rfl⟩
  | notANumber | infinity => cases finite

theorem sizeBits_lt (finite : x.isFinite = true) : sizeBits x < Magnitude.infinityBits := by
  have some : @UnpackedFloat.unpackExponent .binary64 x.toBits.toBitVec ≠ -1#11 := by
    intro all
    have fails : (UnpackedFloat.unpack .binary64 x.toBits.toBitVec).isFinite = true := finite
    simp only [UnpackedFloat.unpack] at fails
    rw [if_pos all] at fails
    split at fails <;> cases fails
  have exponent : x.toBits.toNat / 2 ^ 52 % 2 ^ 11 ≠ 2047 := by
    rw [← UInt64.toNat_toBitVec, ← unpackExponent_toNat]
    exact fun all => some (BitVec.eq_of_toNat_eq all)
  have size : sizeBits x = x.toBits.toNat % 2 ^ 63 := rfl
  have least : Magnitude.infinityBits = 2047 * 2 ^ 52 := rfl
  omega

theorem abs_eq (x : Float) : x.abs = ofSizeBits false (sizeBits x) := by
  have below : sizeBits x < 2 ^ 63 := Nat.mod_lt _ (by decide)
  have word := sizeWord_toNat false below
  rw [if_neg Bool.false_ne_true, Nat.zero_add] at word
  have same : x.toBits.toBitVec.toNat % 2 ^ 63 =
      (sizeWord false (sizeBits x)).toBitVec.toNat % 2 ^ 63 := by
    rw [word, Nat.mod_eq_of_lt below]
    rfl
  have positive : (sizeWord false (sizeBits x)).toBitVec.toNat < 2 ^ 63 := by
    rw [word]
    exact below
  exact congrArg (fun u => Float.ofModel (.pack u)) (unpack_abs same positive).symm

theorem pack_unpack_sizeWord (negative : Bool) (bounded : bits ≤ Magnitude.infinityBits) :
    UnpackedFloat.pack .binary64
        (UnpackedFloat.unpack .binary64 (sizeWord negative bits).toBitVec) =
      (sizeWord negative bits).toBitVec := by
  rw [UnpackedFloat.pack_unpack, isNaNBits_sizeWord negative bounded, if_neg Bool.false_ne_true]

theorem neg_ofSizeBits (bounded : bits ≤ Magnitude.infinityBits) :
    -ofSizeBits false bits = ofSizeBits true bits := by
  have least : Magnitude.infinityBits = 2047 * 2 ^ 52 := rfl
  have below : bits < 2 ^ 63 := by omega
  have word := sizeWord_toNat false below
  have word' := sizeWord_toNat true below
  rw [if_neg Bool.false_ne_true, Nat.zero_add] at word
  rw [if_pos rfl] at word'
  have flipped := unpack_neg (b := (sizeWord false bits).toBitVec)
    (c := (sizeWord true bits).toBitVec) (by omega) (by omega) (by omega)
  have whole : -ofSizeBits false bits =
      .ofModel (.pack (UnpackedFloat.unpack .binary64 (sizeWord false bits).toBitVec).neg) := by
    change Float.ofModel (.pack (UnpackedFloat.unpack .binary64 (UnpackedFloat.pack .binary64
      (UnpackedFloat.unpack .binary64 (sizeWord false bits).toBitVec))).neg) = _
    rw [pack_unpack_sizeWord false bounded]
  rw [whole, ← flipped]
  rfl

theorem signed_abs (finite : x.isFinite = true) :
    (if isNegative x then -x.abs else x.abs) = x := by
  have bounded := Nat.le_of_lt (sizeBits_lt finite)
  have whole := ofSizeBits_sizeBits x
  rw [abs_eq]
  cases sign : isNegative x with
  | true =>
    rw [sign] at whole
    rw [if_pos rfl, neg_ofSizeBits bounded, whole]
  | false =>
    rw [sign] at whole
    rw [if_neg Bool.false_ne_true, whole]

end CalcScript.Binary64
