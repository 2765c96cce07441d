import NekoLink.Android.Curve25519

/-!
# Keys as numbers

The loops of `Curve25519.eval` that convert between 32 bytes and ten limbs, and the number whose
bits the ladder goes through.

* `num_unpack`: the public key in limbs is the number of its bytes.
* `pack_eq`: the result is the bytes of the number.
* `ofBits_keyBits`: the bits of the private key are those of the clamped one.
-/

namespace NekoLink.Android

namespace Curve25519

open Limbs MachineInts Wire

/-! ## A byte as an `int` -/

theorem toInt_byte (b : UInt8) : (intOf b &&& 0xFF).toInt = b.toNat := by
  refine forall_byte (P := fun b => (intOf b &&& 0xFF).toInt = b.toNat) ?_ b
  decide +kernel

theorem byteOf_eq (a : Int32) : byteOf a = UInt8.ofNat (a.toInt % 256).toNat := by
  have hmod := toInt_emod_two_pow a.toBitVec (by decide : 8 ≤ 32)
  rw [Int32.toInt_toBitVec] at hmod
  have hbyte : (byteOf a).toNat = a.toBitVec.toNat % 256 := by
    have hcast : (byteOf a).toBitVec = a.toBitVec.setWidth 8 :=
      (Int32.toBitVec_toInt8 a).trans (BitVec.signExtend_eq_setWidth_of_le _ (by decide))
    rw [← UInt8.toNat_toBitVec, hcast, BitVec.toNat_setWidth]
  apply UInt8.toNat_inj.mp
  rw [hbyte, UInt8.toNat_ofNat']
  omega

/-! ## Single limbs -/

section

variable {x : List Int32}

theorem num_modify (f : Int32 → Int32) {i : ℕ} (h : i < x.length) :
    num (x.modify i f) = num x + base ^ i * ((f (x.getD i 0)).toInt - (x.getD i 0).toInt) := by
  induction x generalizing i with
  | nil => cases h
  | cons d ds ih =>
    cases i with
    | zero =>
      rw [List.modify_zero_cons, num_cons, num_cons, List.getD_cons_zero]
      ring
    | succ i =>
      rw [List.modify_succ_cons, num_cons, num_cons, List.getD_cons_succ,
        ih (Nat.lt_of_succ_lt_succ h)]
      ring

theorem isDigits_modify (f : Int32 → Int32) (i : ℕ) (hx : IsDigits base (limbs x))
    (hf : 0 ≤ (f (x.getD i 0)).toInt ∧ (f (x.getD i 0)).toInt < base) :
    IsDigits base (limbs (x.modify i f)) := by
  induction x generalizing i with
  | nil => rwa [List.modify_nil]
  | cons d ds ih =>
    obtain ⟨hd, hds⟩ := isDigits_cons.mp hx
    cases i with
    | zero => exact isDigits_cons.mpr ⟨hf, hds⟩
    | succ i => exact isDigits_cons.mpr ⟨hd, ih i hds hf⟩

/-- The number from a limb on. -/
theorem num_div_pow (hx : IsDigits base (limbs x)) {i : ℕ} (h : i < x.length) :
    num x / base ^ i = (x.getD i 0).toInt + base * (num x / base ^ (i + 1)) := by
  have hdrop : x.drop i = x.getD i 0 :: x.drop (i + 1) := by
    rw [List.drop_eq_getElem_cons h, List.getElem_eq_getD 0]
  have hlimbs : (limbs x).drop i = limbs (x.drop i) := by rw [limbs, limbs, List.map_drop]
  have hlimbs' : (limbs x).drop (i + 1) = limbs (x.drop (i + 1)) := by
    rw [limbs, limbs, List.map_drop]
  rw [num, value_div_pow base_pos hx, value_div_pow base_pos hx, hlimbs, hlimbs', hdrop, limbs_cons,
    value_cons]

theorem getD_digit (hx : IsDigits base (limbs x)) {i : ℕ} (h : i < x.length) :
    0 ≤ (x.getD i 0).toInt ∧ (x.getD i 0).toInt < base := by
  refine hx _ ?_
  rw [← List.getElem_eq_getD (h := h)]
  exact List.mem_map_of_mem (List.getElem_mem h)

end

/-! ## The result -/

theorem smod_ofNat : ∀ k < 32, ((Int32.ofNat k).toBitVec.smod 32).toNat = k := by
  decide

theorem byteOf_of_emod {a : Int32} {n : ℤ} (hn : 0 ≤ n) (h : a.toInt % 256 = n % 256) :
    byteOf a = UInt8.ofNat n.toNat := by
  apply UInt8.toNat_inj.mp
  rw [byteOf_eq, UInt8.toNat_ofNat', UInt8.toNat_ofNat']
  omega

theorem base_eq_mul {k : ℕ} (hk : k ≤ 26) : base = 2 ^ k * 2 ^ (26 - k) := by
  rw [← pow_add, Nat.add_sub_cancel' hk]
  rfl

/-- What is at a bit of a limb and above it. -/
theorem add_base_mul_div {k : ℕ} (hk : k ≤ 26) (d m : ℤ) :
    (d + base * m) / 2 ^ k = d / 2 ^ k + 2 ^ (26 - k) * m := by
  rw [base_eq_mul hk, mul_assoc, Int.add_mul_ediv_left _ _ (by positivity)]

section

variable {d d' : Int32} {m : ℤ} {k : ℕ}

/-- A byte within a limb. -/
theorem byteOf_within (hk : k ≤ 18) (hd : 0 ≤ d.toInt) (hm : 0 ≤ m) :
    byteOf (d >>> Int32.ofNat k) = UInt8.ofNat ((d.toInt + base * m) / 2 ^ k).toNat := by
  have hpow : (2 : ℤ) ^ (26 - k) = 256 * 2 ^ (18 - k) := by
    rw [show (256 : ℤ) = 2 ^ 8 from rfl, ← pow_add]
    congr 1
    omega
  refine byteOf_of_emod (Int.ediv_nonneg (add_nonneg hd (mul_nonneg base_pos.le hm))
    (by positivity)) ?_
  rw [toInt_shiftRight d (smod_ofNat k (by omega)), add_base_mul_div (by omega), hpow, mul_assoc,
    Int.add_mul_emod_self_left]

/-- A byte that goes on in the next limb. -/
theorem byteOf_across (hk : k ≤ 26) (hd : 0 ≤ d.toInt ∧ d.toInt < base) (hd' : 0 ≤ d'.toInt)
    (hm : 0 ≤ m) :
    byteOf ((d >>> Int32.ofNat k) ||| (d' <<< Int32.ofNat (26 - k))) =
      UInt8.ofNat ((d.toInt + base * (d'.toInt + base * m)) / 2 ^ k).toNat := by
  have hshift := toInt_shiftRight d (smod_ofNat k (by omega))
  have hlow : 0 ≤ (d >>> Int32.ofNat k).toInt := by
    rw [hshift]
    exact Int.ediv_nonneg hd.1 (by positivity)
  have hlt : (d >>> Int32.ofNat k).toInt < 2 ^ (26 - k) := by
    rw [hshift]
    refine Int.ediv_lt_of_lt_mul (by positivity) ?_
    rw [mul_comm, ← base_eq_mul hk]
    exact hd.2
  have hor := toInt_or_shiftLeft (n := 8) (d >>> Int32.ofNat k) d' (smod_ofNat (26 - k) (by omega))
    (by omega) (by decide) hlow hlt
  have hrest : (2 : ℤ) ^ (26 - k) * (base * m) = 256 * (2 ^ 18 * 2 ^ (26 - k) * m) := by
    rw [base_eq]
    ring
  have hnext := add_nonneg hd' (mul_nonneg base_pos.le hm)
  refine byteOf_of_emod (Int.ediv_nonneg (add_nonneg hd.1 (mul_nonneg base_pos.le hnext))
    (by positivity)) ?_
  rw [add_base_mul_div hk, mul_add, hrest, ← add_assoc, Int.add_mul_emod_self_left, ← hshift,
    mul_comm (2 ^ (26 - k))]
  exact hor

end

section

variable {x : List Int32}

/-- The limb of a byte, and the bit of the limb. -/
theorem pow_place (i : ℕ) : (256 : ℤ) ^ i = base ^ (i * 8 / 26) * 2 ^ (i * 8 % 26) := by
  rw [show (256 : ℤ) = 2 ^ 8 from rfl, base, ← pow_mul, ← pow_mul, ← pow_add]
  congr 1
  omega

/-- A byte of the result is a byte of the number. -/
theorem packByte_eq (hx : IsNumber x) {i : ℕ} (hi : i < 32) :
    packByte x i = UInt8.ofNat ((num x).toNat / 256 ^ i) := by
  have hnum : (num x).toNat / 256 ^ i = (num x / base ^ (i * 8 / 26) / 2 ^ (i * 8 % 26)).toNat := by
    rw [Int.ediv_ediv_of_nonneg (pow_pos base_pos _).le, ← pow_place]
    obtain ⟨n, hn⟩ := Int.eq_ofNat_of_zero_le hx.num_nonneg
    rw [hn]
    norm_cast
  have hrest : ∀ j, 0 ≤ num x / base ^ j := fun j =>
    Int.ediv_nonneg hx.num_nonneg (pow_pos base_pos _).le
  have hlength := hx.length
  have hk : i * 8 % 26 < 26 := Nat.mod_lt _ (by decide)
  have hword : i * 8 / 26 < x.length := by omega
  have hd := getD_digit hx.digits hword
  rw [hnum, packByte, num_div_pow hx.digits hword]
  split_ifs with hbit
  · exact byteOf_within hbit hd.1 (hrest _)
  · have hnext : i * 8 / 26 + 1 < x.length := by omega
    rw [num_div_pow hx.digits hnext]
    exact byteOf_across hk.le hd (getD_digit hx.digits hnext).1 (hrest _)

/-- **The result** is the bytes of the number. -/
theorem pack_eq (hx : IsNumber x) :
    (List.range 32).map (packByte x) = leBytes 32 (num x).toNat := by
  refine List.ext_getElem (by simp) fun i hi _ => ?_
  rw [List.getElem_map, List.getElem_range, getElem_leBytes]
  exact packByte_eq hx (by simpa using hi)

end

/-! ## The public key -/

theorem leValue_take_succ {s : List UInt8} {n : ℕ} (h : n < s.length) :
    leValue (s.take (n + 1)) = leValue (s.take n) + 256 ^ n * (s.getD n 0).toNat := by
  have hlength : (s.take n).length = n := by
    rw [List.length_take]
    omega
  rw [List.take_succ_eq_append_getElem h, List.getElem_eq_getD 0, leValue_append, hlength]
  simp [leValue]

section

variable {x : List Int32} {i : ℕ}

/-- Below its highest bit a number has no others in the limb of this bit, and none in the next. -/
theorem limb_of_lt (hx : IsNumber x) {w k : ℕ} (hk : k < 26) (hw : w < 10)
    (hlt : num x < base ^ w * 2 ^ k) :
    0 ≤ (x.getD w 0).toInt ∧ (x.getD w 0).toInt < 2 ^ k ∧
      (w + 1 < x.length → x.getD (w + 1) 0 = 0) := by
  have hword : w < x.length := hw.trans_eq hx.length.symm
  have hpow : (2 : ℤ) ^ k < base := pow_lt_pow_right₀ (by decide) hk
  have hquotient : num x / base ^ w < 2 ^ k := Int.ediv_lt_of_lt_mul (pow_pos base_pos _)
    (by linarith)
  have hrest : ∀ j, 0 ≤ num x / base ^ j := fun j =>
    Int.ediv_nonneg hx.num_nonneg (pow_pos base_pos _).le
  obtain ⟨hd, -⟩ := getD_digit hx.digits hword
  have hnone : num x / base ^ (w + 1) = 0 := by
    have hnonneg := hrest (w + 1)
    rw [num_div_pow hx.digits hword] at hquotient
    by_contra hne
    have hone : base * 1 ≤ base * (num x / base ^ (w + 1)) :=
      mul_le_mul_of_nonneg_left (by omega) base_pos.le
    linarith
  rw [num_div_pow hx.digits hword, hnone, mul_zero, add_zero] at hquotient
  refine ⟨hd, hquotient, fun hnext => ?_⟩
  have hsum := num_div_pow hx.digits hnext
  have hzero := hrest (w + 1 + 1)
  obtain ⟨hd', -⟩ := getD_digit hx.digits hnext
  rw [hnone] at hsum
  have hprod := mul_nonneg base_pos.le hzero
  exact Int32.toInt_inj.mp (by rw [Int32.toInt_zero]; linarith)

/-- A byte that fits its limb. -/
theorem toInt_or_within {d v : Int32} {k : ℕ} (hk : k ≤ 18) (hd : 0 ≤ d.toInt)
    (hlt : d.toInt < 2 ^ k) (hv : 0 ≤ v.toInt) (hv' : v.toInt < 256) :
    (d ||| v <<< Int32.ofNat k).toInt = d.toInt + 2 ^ k * v.toInt ∧
      d.toInt + 2 ^ k * v.toInt < base := by
  have hor := toInt_or_shiftLeft (n := 32) d v (smod_ofNat k (by omega)) (by omega) le_rfl hd hlt
  have hpow : (2 : ℤ) ^ k * 256 ≤ base := by
    rw [show (256 : ℤ) = 2 ^ 8 from rfl, base, ← pow_add]
    exact pow_le_pow_right₀ (by decide) (by omega)
  have hprod : (2 : ℤ) ^ k * v.toInt ≤ 2 ^ k * 255 :=
    mul_le_mul_of_nonneg_left (by omega) (by positivity)
  have hnonneg : 0 ≤ (2 : ℤ) ^ k * v.toInt := mul_nonneg (by positivity) hv
  have hle := (d ||| v <<< Int32.ofNat k).le_toInt
  have hlt' := (d ||| v <<< Int32.ofNat k).toInt_lt
  rw [mul_comm v.toInt] at hor
  rw [base_eq] at *
  omega

/-- A byte that goes on in the next limb. -/
theorem toInt_or_across {d v : Int32} {k : ℕ} (hk : k < 26) (hd : 0 ≤ d.toInt)
    (hlt : d.toInt < 2 ^ k) :
    ((d ||| v <<< Int32.ofNat k) &&& 0x03FFFFFF).toInt +
      base * (0 ||| v >>> Int32.ofNat (26 - k)).toInt = d.toInt + 2 ^ k * v.toInt := by
  have hor := toInt_or_shiftLeft (n := 26) d v (smod_ofNat k (by omega)) (by omega) (by decide) hd
    hlt
  have hquotient : (d.toInt + 2 ^ k * v.toInt) / base = v.toInt / 2 ^ (26 - k) := by
    rw [base_eq_mul hk.le, ← Int.ediv_ediv_of_nonneg (by positivity),
      Int.add_mul_ediv_left _ _ (by positivity), Int.ediv_eq_zero_of_lt hd hlt, zero_add]
  have hbase : (2 : ℤ) ^ 26 = base := rfl
  rw [mul_comm v.toInt, hbase] at hor
  rw [toInt_low, hor, Int32.zero_or, toInt_shiftRight v (smod_ofNat (26 - k) (by omega)),
    ← hquotient, Int.emod_add_mul_ediv]

theorem getD_modify_succ (x : List Int32) (f : Int32 → Int32) (w : ℕ) :
    (x.modify w f).getD (w + 1) 0 = x.getD (w + 1) 0 := by
  simp [List.getD]

/-- **A byte in its place** above those that are there. -/
theorem unpackByte_spec (hx : IsNumber x) (hi : i < 32) (hlt : num x < 256 ^ i) (b : UInt8) :
    IsNumber (unpackByte x i b) ∧ num (unpackByte x i b) = num x + 256 ^ i * b.toNat := by
  have hlength := hx.length
  have hk : i * 8 % 26 < 26 := Nat.mod_lt _ (by decide)
  have hword : i * 8 / 26 < x.length := by omega
  have hb := b.toNat_lt
  have hv := toInt_byte b
  rw [pow_place] at hlt ⊢
  obtain ⟨hd, hdlt, hnext⟩ := limb_of_lt hx hk (by omega) hlt
  rw [unpackByte]
  split_ifs with hbit
  · obtain ⟨hor, hfits⟩ := toInt_or_within (v := intOf b &&& 0xFF) hbit hd hdlt
      (by rw [hv]; omega) (by rw [hv]; omega)
    refine ⟨⟨by rw [List.length_modify, hlength], isDigits_modify _ _ hx.digits ?_⟩, ?_⟩
    · rw [hor]
      refine ⟨add_nonneg hd (mul_nonneg (by positivity) (by rw [hv]; omega)), hfits⟩
    · rw [num_modify _ hword, hor, hv]
      ring
  · have hword' : i * 8 / 26 + 1 < x.length := by omega
    have hor := toInt_or_across (v := intOf b &&& 0xFF) hk hd hdlt
    have hlow := toInt_low (x.getD (i * 8 / 26) 0 |||
      (intOf b &&& 0xFF) <<< Int32.ofNat (i * 8 % 26))
    have hhigh := toInt_shiftRight (intOf b &&& 0xFF) (smod_ofNat (26 - i * 8 % 26) (by omega))
    have hpow : (1 : ℤ) ≤ 2 ^ (26 - i * 8 % 26) := one_le_pow₀ (by decide)
    refine ⟨⟨by rw [List.length_modify, List.length_modify, hlength], isDigits_modify _ _
      (isDigits_modify _ _ hx.digits ?_) ?_⟩, ?_⟩
    · rw [hlow]
      exact ⟨Int.emod_nonneg _ base_pos.ne', Int.emod_lt_of_pos _ base_pos⟩
    · rw [getD_modify_succ, hnext hword', Int32.zero_or, hhigh, hv]
      refine ⟨Int.ediv_nonneg (by omega) (by positivity), ?_⟩
      refine Int.ediv_lt_of_lt_mul (by positivity) ?_
      rw [base_eq]
      nlinarith
    · rw [num_modify _ (by rwa [List.length_modify]), getD_modify_succ, hnext hword',
        num_modify _ hword, Int32.toInt_zero]
      rw [hv] at hor
      linear_combination base ^ (i * 8 / 26) * hor

theorem isNumber_small {n : Int32} (hn : 0 ≤ n.toInt) (hlt : n.toInt < base) :
    IsNumber (small n) ∧ num (small n) = n.toInt := by
  refine ⟨⟨rfl, isDigits_cons.mpr ⟨⟨hn, hlt⟩, ?_⟩⟩, ?_⟩
  · unfold IsDigits
    decide
  · have hzero : num (List.replicate 9 0) = 0 := by decide
    rw [small, num_cons, hzero, mul_zero, add_zero]

/-- **The public key in limbs** is the number of its bytes. -/
theorem num_unpack {publicKey : List UInt8} (h : publicKey.length = 32) :
    IsNumber (unpack publicKey) ∧ num (unpack publicKey) = leValue publicKey := by
  have hprefix : ∀ n ≤ 32, IsNumber ((List.range n).foldl
      (fun x_1 index => unpackByte x_1 index (publicKey.getD index 0)) (List.replicate 10 0)) ∧
      num ((List.range n).foldl (fun x_1 index => unpackByte x_1 index (publicKey.getD index 0))
        (List.replicate 10 0)) = leValue (publicKey.take n) := by
    intro n hn
    induction n with
    | zero => exact isNumber_small (n := 0) (by decide) (by decide)
    | succ n ih =>
      obtain ⟨hnumber, hnum⟩ := ih (by omega)
      have hlt := leValue_lt (publicKey.take n)
      rw [List.length_take, min_eq_left (by omega)] at hlt
      obtain ⟨hnumber', hnum'⟩ := unpackByte_spec hnumber (by omega : n < 32)
        (by rw [hnum]; exact_mod_cast hlt) (publicKey.getD n 0)
      rw [List.range_succ, List.foldl_append, leValue_take_succ (by omega)]
      refine ⟨hnumber', hnum'.trans ?_⟩
      rw [hnum]
      push_cast
      rfl
  obtain ⟨hnumber, hnum⟩ := hprefix 32 le_rfl
  rw [List.take_of_length_le h.le] at hnum
  exact ⟨hnumber, hnum⟩

end

/-! ## The private key -/

open Montgomery

theorem ofBits_bitsFrom {s : List UInt8} (m : ℕ) {n : ℕ} (h : n ≤ s.length) :
    ofBits m (bitsFrom s n) = m * 256 ^ n + leValue (s.take n) := by
  induction n generalizing m with
  | zero => simp [ofBits, bitsFrom, leValue]
  | succ n ih =>
    have hb := (s.getD n 0).toNat_lt
    rw [bitsFrom, ofBits_append, ofBits_bitsBelow, ih _ (by omega), Nat.mod_eq_of_lt hb,
      leValue_take_succ h]
    ring

theorem length_clamp (s : List UInt8) : (clamp s).length = s.length := by
  rw [clamp, List.length_modify, List.length_modify, List.length_modify]

/-- **The ladder goes through the bits of the clamped key.** -/
theorem ofBits_keyBits {s : List UInt8} (h : s.length = 32) :
    ofBits 0 (keyBits s) = leValue (clamp s) := by
  have hlength := (length_clamp s).trans h
  have hlast : ((clamp s).getD 31 0).toNat < 2 ^ 7 := by
    rw [getD_clamp_last h]
    refine forall_byte (P := fun b => ((b &&& 127) ||| 64).toNat < 2 ^ 7) ?_ _
    decide +kernel
  have hall := leValue_take_succ (by omega : 31 < (clamp s).length)
  rw [List.take_of_length_le hlength.le] at hall
  rw [keyBits, ofBits_append, ofBits_bitsBelow, ofBits_bitsFrom _ (by omega),
    Nat.mod_eq_of_lt hlast, hall]
  ring

/-- A clamped key is a multiple of eight. -/
theorem even_clamp {s : List UInt8} (h : s.length = 32) : 2 ∣ leValue (clamp s) := by
  have hlength := (length_clamp s).trans h
  obtain ⟨b, rest, hcons⟩ := List.exists_cons_of_length_eq_add_one hlength
  have hfirst : b = s.getD 0 0 &&& 248 := by
    rw [← getD_clamp_zero h, hcons]
    rfl
  have heven : 2 ∣ b.toNat := by
    rw [hfirst]
    refine forall_byte (P := fun b => 2 ∣ (b &&& 248).toNat) ?_ _
    decide +kernel
  rw [hcons, leValue]
  omega

end Curve25519

end NekoLink.Android
