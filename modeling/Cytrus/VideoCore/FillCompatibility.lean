import Cytrus.VideoCore.SurfaceValidity

/-!
# Surfaces that are filled with a pattern

A surface of type `Fill` has a pattern of bytes instead of pixels. It can stand
for a rectangle of another surface if every pixel gets the same bits from it,
wherever in the pattern the rectangle begins.

## Implementation notes

The sizes of the pattern are 2, 3 and 4, so that a remainder by 0 and a byte
behind the fourth one are not read.

## Main results

* `canFill_uniform`: every pixel has the bits that `MakeFillBuffer` begins with
-/

namespace Cytrus.VideoCore.Geometry

/-- A bit of bytes in memory, the lowest one of each first. -/
def bitAt (memory : Nat → UInt8) (n : Nat) : Bool := (memory (n / 8)).toNat.testBit (n % 8)

/-- Where a pixel of a surface is, in pixels from its start. -/
def SurfaceParams.pixelIndex (p : SurfaceParams) (x y : Nat) : Nat :=
  if p.isTiled then (y / 8 * (p.stride.toNat / 8) + x / 8) * 64 + mortonInterleave x y
  else y * p.stride.toNat + x

namespace SurfaceBase

variable (s : SurfaceBase)

def isRegionValid (interval : SurfaceInterval) : Bool := !s.invalidRegions.intersects interval.toBlock

/-- The bytes of `fill_data` that are used. -/
def fillBytes : List UInt8 := (List.ofFn s.fillData).take s.fillSize.toNat

def fillTest (destBytesPerPixel : Nat) : List UInt8 :=
  (List.replicate destBytesPerPixel s.fillBytes).flatten

/-- Whether bits repeat for the size of the pattern. -/
def bitsRepeat (destBpp : UInt32) : Bool :=
  let destBytesPerPixel := (max (destBpp / 8) 1).toNat
  let fillTest := s.fillTest destBytesPerPixel
  (List.range s.fillSize.toNat).all (fun i =>
    (fillTest.drop (destBytesPerPixel * i)).take destBytesPerPixel =
      fillTest.take destBytesPerPixel) &&
    !(destBpp == 4 && (fillTest.headD 0 &&& (0xF : UInt8)) != fillTest.headD 0 >>> 4)

def canFill (dest : SurfaceParams) (interval : SurfaceInterval) : Option Bool :=
  if s.type = .fill ∧ s.isRegionValid interval = true ∧ s.addr ≤ interval.lower ∧
      interval.upper ≤ s.stop then
    (dest.fromInterval interval).map fun p =>
      if p.getInterval.equals interval then
        if s.fillSize * 8 ≠ dest.bpp then s.bitsRepeat dest.bpp else true
      else false
  else some false

def makeFillBuffer (copyAddr : UInt32) : List UInt8 :=
  let fillOffset := (copyAddr - s.addr) % s.fillSize
  (List.range 4).map fun i => s.fillBytes.getD ((fillOffset + UInt32.ofNat i) % s.fillSize).toNat 0

/-- The byte of the repeating pattern at an address. -/
def pattern (a : Nat) : UInt8 := s.fillBytes.getD ((a - s.addr.toNat) % s.fillSize.toNat) 0

end SurfaceBase

theorem periodic_of_check {f : Nat → UInt8} {m d : Nat} (hd : 0 < d) (hm : 0 < m)
    (hperiod : ∀ n, f (n % m) = f n)
    (hcheck : ∀ i < m, ∀ j < d, f (d * i + j) = f j) (n : Nat) : f n = f (n % d) := by
  have hlt : n % (d * m) / d < m := Nat.div_lt_of_lt_mul (Nat.mod_lt n (Nat.mul_pos hd hm))
  have hsplit := Nat.div_add_mod (n % (d * m)) d
  calc f n = f (n % m) := (hperiod n).symm
    _ = f (n % (d * m) % m) := by rw [Nat.mod_mul_left_mod]
    _ = f (n % (d * m)) := hperiod _
    _ = f (d * (n % (d * m) / d) + n % (d * m) % d) := by rw [hsplit]
    _ = f (n % (d * m) % d) := hcheck _ hlt _ (Nat.mod_lt _ hd)
    _ = f (n % d) := by rw [Nat.mod_mul_right_mod]

theorem getD_flatten_replicate (l : List UInt8) (d n : Nat) (hn : n < d * l.length) :
    (List.replicate d l).flatten.getD n 0 = l.getD (n % l.length) 0 := by
  induction d generalizing n with
  | zero => exact absurd hn (by rw [Nat.zero_mul]; exact Nat.not_lt_zero n)
  | succ d ih =>
      rw [List.replicate_succ, List.flatten_cons]
      rcases Nat.lt_or_ge n l.length with hlt | hge
      · rw [List.getD_append _ _ _ _ hlt, Nat.mod_eq_of_lt hlt]
      · rw [Nat.succ_mul] at hn
        rw [List.getD_append_right _ _ _ _ hge, ih _ (by omega), Nat.mod_eq_sub_mod hge]

namespace SurfaceBase

variable {s : SurfaceBase} {dest : SurfaceParams} {interval : SurfaceInterval}

theorem length_fillBytes (hsize : s.fillSize.toNat ≤ 4) : s.fillBytes.length = s.fillSize.toNat := by
  rw [fillBytes, List.length_take, List.length_ofFn, min_eq_left hsize]

/-- The pattern by the offset from its start. -/
def patternFrom (s : SurfaceBase) (n : Nat) : UInt8 := s.fillBytes.getD (n % s.fillSize.toNat) 0

theorem patternFrom_mod (n : Nat) : s.patternFrom (n % s.fillSize.toNat) = s.patternFrom n := by
  rw [patternFrom, Nat.mod_mod, patternFrom]

theorem patternFrom_of_bitsRepeat {destBpp : UInt32} {d : Nat} (hd : (max (destBpp / 8) 1).toNat = d)
    (hpos : 0 < s.fillSize.toNat) (hsize : s.fillSize.toNat ≤ 4) (h : s.bitsRepeat destBpp = true)
    (n : Nat) : s.patternFrom n = s.patternFrom (n % d) := by
  have hd_pos : 0 < d := by
    rw [← hd, UInt32.toNat_max]
    exact lt_of_lt_of_le (by decide) (le_max_right _ _)
  refine periodic_of_check hd_pos hpos patternFrom_mod (fun i hi j hj => ?_) n
  have hlength := length_fillBytes hsize
  have hget {k : Nat} (hk : k < d * s.fillSize.toNat) : (s.fillTest d).getD k 0 = s.patternFrom k := by
    rw [fillTest, getD_flatten_replicate _ _ _ (by rwa [hlength]), hlength, patternFrom]
  simp only [bitsRepeat, hd, Bool.and_eq_true, List.all_eq_true, List.mem_range, decide_eq_true_eq] at h
  have hwindow := h.1 i hi
  have hnext : d * i + j < d * s.fillSize.toNat := by
    calc d * i + j < d * i + d := Nat.add_lt_add_left hj _
      _ = d * (i + 1) := (Nat.mul_succ ..).symm
      _ ≤ d * s.fillSize.toNat := Nat.mul_le_mul_left _ hi
  have hfirst : j < d * s.fillSize.toNat := (Nat.le_add_left ..).trans_lt hnext
  have hbyte := congrArg (fun l => l.getD j 0) hwindow
  simp only [List.getD_eq_getElem?_getD, List.getElem?_take_of_lt hj, List.getElem?_drop] at hbyte
  simpa only [← List.getD_eq_getElem?_getD, hget hnext, hget hfirst] using hbyte

theorem getD_makeFillBuffer (hpos : 0 < s.fillSize.toNat) (hsize : s.fillSize.toNat ≤ 4) {a : UInt32}
    (ha : s.addr ≤ a) {k : Nat} (hk : k < 4) :
    (s.makeFillBuffer a).getD k 0 = s.patternFrom (a.toNat - s.addr.toNat + k) := by
  have hmod := Nat.mod_lt (a.toNat - s.addr.toNat) hpos
  have hoffset : ((a - s.addr) % s.fillSize).toNat = (a.toNat - s.addr.toNat) % s.fillSize.toNat := by
    rw [UInt32.toNat_mod, UInt32.toNat_sub_of_le _ _ ha]
  have hpos' : (((a - s.addr) % s.fillSize + UInt32.ofNat k) % s.fillSize).toNat =
      (a.toNat - s.addr.toNat + k) % s.fillSize.toNat := by
    rw [UInt32.toNat_mod, toNat_add_of_lt hoffset (UInt32.toNat_ofNat_of_lt' (hk.trans (by decide)))
      (by omega), Nat.mod_add_mod]
  rw [makeFillBuffer, List.getD_eq_getElem?_getD, List.getElem?_map, List.getElem?_range hk,
    Option.map_some, Option.getD_some, hpos', patternFrom]

theorem bitAt_of_bytes {f : Nat → UInt8} {d : Nat} (hperiod : ∀ n, f n = f (n % d)) (o k j : Nat) :
    bitAt f (8 * o + (k * (8 * d) + j)) = bitAt f (8 * o + j) := by
  have hbyte : (8 * o + (k * (8 * d) + j)) / 8 = o + j / 8 + d * k := by
    rw [show 8 * o + (k * (8 * d) + j) = j + 8 * (o + d * k) by ring, Nat.add_mul_div_left _ _ (by decide)]
    omega
  have hbit : (8 * o + (k * (8 * d) + j)) % 8 = (8 * o + j) % 8 := by
    rw [show 8 * o + (k * (8 * d) + j) = 8 * o + j + 8 * (d * k) by ring, Nat.add_mul_mod_self_left]
  have hfirst : (8 * o + j) / 8 = o + j / 8 := by omega
  rw [bitAt, bitAt, hbyte, hbit, hfirst, hperiod, Nat.add_mul_mod_self_left, ← hperiod]

theorem bitAt_of_nibbles {f : Nat → UInt8} (hsame : ∀ n, f n = f 0)
    (hhalves : (f 0 &&& (0xF : UInt8)) = f 0 >>> 4) (o k : Nat) {j : Nat} (hj : j < 4) :
    bitAt f (8 * o + (k * 4 + j)) = bitAt f (8 * o + j) := by
  have hnat : (f 0).toNat % 2 ^ 4 = (f 0).toNat / 2 ^ 4 := by
    have htoNat := congrArg UInt8.toNat hhalves
    rw [UInt8.toNat_and, UInt8.toNat_shiftRight] at htoNat
    rw [← Nat.and_two_pow_sub_one_eq_mod, ← Nat.shiftRight_eq_div_pow]
    exact htoNat
  have hhigh : (f 0).toNat.testBit (j + 4) = (f 0).toNat.testBit j := by
    rw [← Nat.testBit_div_two_pow, ← hnat, Nat.testBit_mod_two_pow, decide_eq_true hj, Bool.true_and]
  have hlow : (8 * o + j) % 8 = j := by omega
  rw [bitAt, bitAt, hsame, hsame ((8 * o + j) / 8), hlow]
  rcases Nat.mod_two_eq_zero_or_one k with heven | hodd
  · rw [show (8 * o + (k * 4 + j)) % 8 = j by omega]
  · rw [show (8 * o + (k * 4 + j)) % 8 = j + 4 by omega, hhigh]

theorem bitAt_pattern {a : Nat} (ha : s.addr.toNat ≤ a) (n : Nat) :
    bitAt s.pattern (8 * a + n) = bitAt s.patternFrom (8 * (a - s.addr.toNat) + n) := by
  have hbyte : (8 * a + n) / 8 - s.addr.toNat = (8 * (a - s.addr.toNat) + n) / 8 := by omega
  have hbit : (8 * a + n) % 8 = (8 * (a - s.addr.toNat) + n) % 8 := by omega
  rw [bitAt, bitAt, hbit, pattern, hbyte, patternFrom]

theorem bitAt_makeFillBuffer (hpos : 0 < s.fillSize.toNat) (hsize : s.fillSize.toNat ≤ 4) {a : UInt32}
    (ha : s.addr ≤ a) {j : Nat} (hj : j < 32) :
    bitAt (fun n => (s.makeFillBuffer a).getD n 0) j =
      bitAt s.patternFrom (8 * (a.toNat - s.addr.toNat) + j) := by
  have hbyte : (8 * (a.toNat - s.addr.toNat) + j) / 8 = a.toNat - s.addr.toNat + j / 8 := by omega
  have hbit : (8 * (a.toNat - s.addr.toNat) + j) % 8 = j % 8 := by omega
  rw [bitAt, bitAt, hbyte, hbit, getD_makeFillBuffer hpos hsize ha (by omega)]

theorem patternFrom_pixel {d : Nat} (hbpp : dest.pixelFormat.bpp = 8 * d)
    (hpos : 0 < s.fillSize.toNat) (hsize : s.fillSize.toNat ≤ 4)
    (h : (if s.fillSize * 8 ≠ dest.bpp then s.bitsRepeat dest.bpp else true) = true) (n : Nat) :
    s.patternFrom n = s.patternFrom (n % d) := by
  have hbpp' := dest.toNat_bpp
  have hd_pos : 0 < d := by
    have := bpp_pos dest.pixelFormat
    omega
  split at h
  · refine patternFrom_of_bitsRepeat ?_ hpos hsize h n
    rw [UInt32.toNat_max, UInt32.toNat_div, hbpp', hbpp]
    exact (max_eq_left (by change 1 ≤ 8 * d / 8; omega)).trans (Nat.mul_div_cancel_left _ (by decide))
  · next hsame =>
    have heq := congrArg UInt32.toNat (not_not.mp hsame)
    rw [UInt32.toNat_mul, hbpp', hbpp] at heq
    have hfill : s.fillSize.toNat = d := by
      change s.fillSize.toNat * 8 % 2 ^ 32 = 8 * d at heq
      omega
    rw [← hfill, patternFrom_mod]

theorem patternFrom_nibbles (hbpp : dest.pixelFormat.bpp = 4) (hpos : 0 < s.fillSize.toNat)
    (hsize : s.fillSize.toNat ≤ 4)
    (h : (if s.fillSize * 8 ≠ dest.bpp then s.bitsRepeat dest.bpp else true) = true) :
    (∀ n, s.patternFrom n = s.patternFrom 0) ∧
      (s.patternFrom 0 &&& (0xF : UInt8)) = s.patternFrom 0 >>> 4 := by
  have hfour : dest.bpp = 4 := UInt32.toNat_inj.mp (dest.toNat_bpp.trans hbpp)
  have hsizes : s.fillSize * 8 ≠ 4 := by
    intro heq
    have htoNat := congrArg UInt32.toNat heq
    rw [UInt32.toNat_mul] at htoNat
    change s.fillSize.toNat * 8 % 2 ^ 32 = 4 at htoNat
    omega
  rw [hfour, if_pos hsizes] at h
  have hperiod := patternFrom_of_bitsRepeat (d := 1) rfl hpos hsize h
  refine ⟨fun n => (hperiod n).trans (by rw [Nat.mod_one]), ?_⟩
  have hfirst : (s.fillTest 1).headD 0 = s.patternFrom 0 := by
    rw [List.headD_eq_head?_getD, List.head?_eq_getElem?, ← List.getD_eq_getElem?_getD, fillTest,
      getD_flatten_replicate _ _ _ (by rw [length_fillBytes hsize]; omega), length_fillBytes hsize,
      patternFrom]
  have hdest : (max ((4 : UInt32) / 8) 1).toNat = 1 := rfl
  simp only [bitsRepeat, hdest, hfirst, Bool.and_eq_true, beq_self_eq_true, Bool.true_and,
    Bool.not_eq_true', bne_eq_false_iff_eq] at h
  exact h.2

/-- Every pixel of the rectangle that a surface can fill has the same bits of the pattern, those
with which `MakeFillBuffer` begins for the interval. -/
theorem canFill_uniform (hpos : 0 < s.fillSize.toNat) (hsize : s.fillSize.toNat ≤ 4)
    (h : s.canFill dest interval = some true) (hne : interval.lower < interval.upper) :
    ∃ p, dest.fromInterval interval = some p ∧ p.getInterval = interval ∧
      ∀ x y j, j < dest.pixelFormat.bpp →
        bitAt s.pattern (8 * p.addr.toNat + (p.pixelIndex x y * dest.pixelFormat.bpp + j)) =
          bitAt (fun n => (s.makeFillBuffer interval.lower).getD n 0) j := by
  unfold canFill at h
  split at h
  · next hin =>
    obtain ⟨-, -, hlow, -⟩ := hin
    obtain ⟨p, hp, hfill⟩ := Option.map_eq_some_iff.mp h
    by_cases hequals : p.getInterval.equals interval = true
    · rw [if_pos hequals] at hfill
      have hsame : p.getInterval = interval := by
        have hnonempty : interval.isEmpty = false := decide_eq_false (UInt32.not_le.mpr hne)
        rwa [SurfaceInterval.equals, hnonempty, Bool.and_false, Bool.false_or, decide_eq_true_iff]
          at hequals
      refine ⟨p, hp, hsame, fun x y j hj => ?_⟩
      have haddr : p.addr = interval.lower := congrArg SurfaceInterval.lower hsame
      rw [haddr, bitAt_pattern (UInt32.le_iff_toNat_le.mp hlow), bitAt_makeFillBuffer hpos hsize hlow
        (hj.trans_le (bpp_le dest.pixelFormat))]
      rcases Nat.lt_or_ge dest.pixelFormat.bpp 8 with hsmall | hlarge
      · have hfour : dest.pixelFormat.bpp = 4 := by
          have hdvd := four_dvd_bpp dest.pixelFormat
          have := bpp_pos dest.pixelFormat
          omega
        obtain ⟨hconst, hhalves⟩ := patternFrom_nibbles hfour hpos hsize hfill
        rw [hfour] at hj ⊢
        exact bitAt_of_nibbles hconst hhalves _ _ hj
      · obtain ⟨d, hd⟩ := eight_dvd_bpp hlarge
        rw [hd]
        exact bitAt_of_bytes (patternFrom_pixel hd hpos hsize hfill) _ _ _
    · rw [if_neg hequals] at hfill
      exact absurd hfill Bool.false_ne_true
  · cases h

/-- A surface that is filled with a pattern of two equal bytes. -/
def filled : SurfaceBase where
  addr := 0x18000000
  stop := 0x18000060
  type := .fill
  pixelFormat := .color .RGB8
  fillSize := 2
  fillData := fun _ => 0xAB

theorem canFill_uniform_filled :
    ∃ dest, (linear .RGB8 0x18000003 4 4).updateParams = some dest ∧
      ∃ p, dest.fromInterval ⟨0x18000003, 0x1800001B⟩ = some p ∧
        p.getInterval = ⟨0x18000003, 0x1800001B⟩ ∧
        ∀ x y j, j < dest.pixelFormat.bpp →
          bitAt filled.pattern (8 * p.addr.toNat + (p.pixelIndex x y * dest.pixelFormat.bpp + j)) =
            bitAt (fun n => (filled.makeFillBuffer 0x18000003).getD n 0) j :=
  ⟨_, rfl, canFill_uniform (by decide) (by decide) (by decide) (by decide)⟩

end SurfaceBase

end Cytrus.VideoCore.Geometry
