import Cytrus.VideoCore.TileWalk

/-!
# Encoding a tile

`MortonCopyTile` writes the pixels of a tile in the order of their rows. Whatever was
in the tile, what is in it afterwards is the code of its pixels in Morton order.

## Main results

* `encodeTile_eq`: the bytes of an encoded tile
-/

namespace Cytrus.VideoCore.SurfaceFormat

open Support

/-! ### Morton order -/

/-- The column of the pixel at a place in a tile. -/
def mortonX (m : Nat) : Nat := m % 2 + 2 * (m / 4 % 2) + 4 * (m / 16 % 2)

/-- Its row. -/
def mortonY (m : Nat) : Nat := m / 2 % 2 + 2 * (m / 8 % 2) + 4 * (m / 32 % 2)

theorem mortonX_lt (m : Nat) : mortonX m < 8 := by
  unfold mortonX
  omega

theorem mortonY_lt (m : Nat) : mortonY m < 8 := by
  unfold mortonY
  omega

theorem mortonX_mortonInterleave {x y : Nat} (hx : x < 8) (hy : y < 8) :
    mortonX (mortonInterleave x y) = x := by
  have h : ∀ i j : Fin 8, mortonX (mortonInterleave i j) = i := by decide
  exact h ⟨x, hx⟩ ⟨y, hy⟩

theorem mortonY_mortonInterleave {x y : Nat} (hx : x < 8) (hy : y < 8) :
    mortonY (mortonInterleave x y) = y := by
  have h : ∀ i j : Fin 8, mortonY (mortonInterleave i j) = j := by decide
  exact h ⟨x, hx⟩ ⟨y, hy⟩

theorem mortonInterleave_mortonX {m : Nat} (hm : m < 64) :
    mortonInterleave (mortonX m) (mortonY m) = m := by
  have h : ∀ i : Fin 64, mortonInterleave (mortonX i) (mortonY i) = i := by decide
  exact h ⟨m, hm⟩

theorem mortonInterleave_pair {j y : Nat} (hj : j < 4) (hy : y < 8) :
    mortonInterleave (2 * j) y % 2 = 0 ∧
      mortonInterleave (2 * j + 1) y = mortonInterleave (2 * j) y + 1 := by
  have h : ∀ i : Fin 4, ∀ k : Fin 8, mortonInterleave (2 * i) k % 2 = 0 ∧
      mortonInterleave (2 * i + 1) k = mortonInterleave (2 * i) k + 1 := by decide
  exact h ⟨j, hj⟩ ⟨y, hy⟩

/-! ### The code of a tile -/

section Code

variable (depth : DepthFloat) (format : SurfaceFormat) (converted : Bool)

/-- The pixel of a tile in the linear image, from the first pixel of the tile on. -/
def linearPixel (stride : Nat) (window : Pointer) (x y : Nat) : Pointer :=
  window.advance (((7 - y) * stride + x) * format.linearBytesPerPixel converted)

/-- The pixel at a place in the tile. -/
def placedPixel (stride : Nat) (window : Pointer) (m : Nat) : Pointer :=
  format.linearPixel converted stride window (mortonX m) (mortonY m)

/-- The byte of an encoded tile. -/
def tileCode (stride : Nat) (window : Pointer) (i : Nat) : UInt8 :=
  if format.Is4Bit then
    (format.encodeNibble (format.placedPixel converted stride window (2 * i + 1)) <<< 4) |||
      format.encodeNibble (format.placedPixel converted stride window (2 * i))
  else
    (format.encodePixel depth converted
      (format.placedPixel converted stride window (i / (format.bpp / 8)))).getD (i % (format.bpp / 8)) 0

/-- An encoded tile. -/
def tileCodes (stride : Nat) (window : Pointer) : List UInt8 :=
  (List.range format.tileBytes).map (format.tileCode depth converted stride window)

end Code

variable {depth : DepthFloat} {format : SurfaceFormat} {converted : Bool}

theorem placedPixel_mortonInterleave {stride x y : Nat} {window : Pointer} (hx : x < 8) (hy : y < 8) :
    format.placedPixel converted stride window (mortonInterleave x y) =
      format.linearPixel converted stride window x y := by
  rw [placedPixel, mortonX_mortonInterleave hx hy, mortonY_mortonInterleave hx hy]

theorem length_tileCodes (stride : Nat) (window : Pointer) :
    (format.tileCodes depth converted stride window).length = format.tileBytes := by
  rw [tileCodes, List.length_map, List.length_range]

theorem length_encodePixel (source : Pointer) :
    (format.encodePixel depth converted source).length = format.bpp / 8 := by
  have htake (n : Nat) : (source.take n).length = n := by
    rw [Pointer.take, List.length_map, List.length_range]
  cases format with
  | color format =>
      cases format <;> cases converted <;>
      first | exact htake _ | (change 1 = _; decide) | (change 2 = _; decide) | (change 3 = _; decide)
            | (change 4 = _; decide)
  | D16 => cases converted <;> exact htake _
  | D24 =>
      cases converted with
      | false => exact htake _
      | true => change 3 = _; decide
  | D24S8 => cases converted <;> change 4 = _ <;> decide

theorem tileBytes_of_bytes (h4 : ¬ format.Is4Bit) (hcompressed : ¬ format.IsCompressed) :
    format.tileBytes = 64 * (format.bpp / 8) ∧ 0 < format.bpp / 8 := by
  cases format with
  | color format =>
      cases format with
      | I4 => exact absurd (.inl rfl) h4
      | A4 => exact absurd (.inr rfl) h4
      | ETC1 => exact absurd (.inl rfl) hcompressed
      | ETC1A4 => exact absurd (.inr rfl) hcompressed
      | _ => decide
  | _ => decide

theorem bpp_of_is4Bit (h4 : format.Is4Bit) : format.bpp / 8 = 0 ∧ format.tileBytes = 32 := by
  rcases h4 with rfl | rfl <;> decide

section Pixel

variable {stride : UInt32} {window : Pointer} {x y : Nat}

theorem subspan_linearPixel (hx : x < 8) :
    (Span.mk window ((7 * stride.toNat + 8) * format.linearBytesPerPixel converted)).subspan
        (((7 - y) * stride.toNat + x) * format.linearBytesPerPixel converted)
        (format.linearBytesPerPixel converted) =
      some ⟨format.linearPixel converted stride.toNat window x y, format.linearBytesPerPixel converted⟩ := by
  have hrow : (7 - y) * stride.toNat ≤ 7 * stride.toNat := Nat.mul_le_mul_right _ (Nat.sub_le 7 y)
  refine if_pos ?_
  calc ((7 - y) * stride.toNat + x) * format.linearBytesPerPixel converted +
          format.linearBytesPerPixel converted
      = ((7 - y) * stride.toNat + x + 1) * format.linearBytesPerPixel converted := (Nat.succ_mul ..).symm
    _ ≤ (7 * stride.toNat + 8) * format.linearBytesPerPixel converted :=
        Nat.mul_le_mul_right _ (by omega)

theorem encodeTilePixel_paints (h4 : ¬ format.Is4Bit) (hcompressed : ¬ format.IsCompressed)
    (hfits : (7 * stride.toNat + 8) * format.linearBytesPerPixel converted < 2 ^ 32) (hx : x < 8) (hy : y < 8) :
    Paints format.tileBytes (format.tileCode depth converted stride.toNat window)
      {i | mortonInterleave x y * (format.bpp / 8) ≤ i ∧
        i < mortonInterleave x y * (format.bpp / 8) + format.bpp / 8}
      (format.encodeTilePixel depth converted stride
        ⟨window, (7 * stride.toNat + 8) * format.linearBytesPerPixel converted⟩ y · x) := by
  intro l hl
  obtain ⟨hsize, hpos⟩ := tileBytes_of_bytes h4 hcompressed
  have hplace := mortonInterleave_lt x y
  have hbound : mortonInterleave x y * (format.bpp / 8) + format.bpp / 8 ≤ l.length := by
    rw [hl, hsize, ← Nat.succ_mul]
    exact Nat.mul_le_mul_right _ hplace
  have hcode : ∀ j < (format.encodePixel depth converted
      (format.linearPixel converted stride.toNat window x y)).length,
      (format.encodePixel depth converted (format.linearPixel converted stride.toNat window x y))[j]? =
        some (format.tileCode depth converted stride.toNat window
          (mortonInterleave x y * (format.bpp / 8) + j)) := by
    intro j hj
    have hjb : j < format.bpp / 8 := by rwa [length_encodePixel] at hj
    have hdiv : (mortonInterleave x y * (format.bpp / 8) + j) / (format.bpp / 8) = mortonInterleave x y := by
      rw [Nat.mul_comm, Nat.mul_add_div hpos, Nat.div_eq_of_lt hjb, Nat.add_zero]
    have hmod : (mortonInterleave x y * (format.bpp / 8) + j) % (format.bpp / 8) = j := by
      rw [Nat.mul_add_mod', Nat.mod_eq_of_lt hjb]
    rw [tileCode, if_neg h4, hdiv, hmod, placedPixel_mortonInterleave hx hy,
      List.getElem?_eq_getElem hj, List.getD_eq_getElem _ _ hj]
  have hpainted := painted_overwrite (l := l) (i := mortonInterleave x y * (format.bpp / 8))
    (by rwa [length_encodePixel]) hcode
  rw [length_encodePixel] at hpainted
  obtain ⟨w, hw⟩ : ∃ w, slice l (mortonInterleave x y * (format.bpp / 8)) (format.bpp / 8) = some w :=
    ⟨_, slice_eq_some.mpr ⟨hbound, rfl⟩⟩
  refine ⟨_, ?_, hpainted⟩
  simp only [encodeTilePixel, hw, toNat_linearPixelOffset hfits hx hy, subspan_linearPixel hx,
    Option.bind_eq_bind, Option.bind_some, if_neg h4]
  rfl

end Pixel

/-! ### Two pixels in a byte -/

theorem withNibble_pair {m : Nat} (hm : m % 2 = 0) (current : UInt8) {low : UInt8} (hlow : low < 16)
    (high : UInt8) :
    withNibble (m + 1) (withNibble m current low) high = (high <<< 4) ||| low := by
  have hmask : ∀ n : Fin 16, UInt8.ofNat n &&& 0x0F = UInt8.ofNat n := by decide
  have hlow' : low &&& 0x0F = low := by simpa using hmask ⟨low.toNat, hlow⟩
  have hzero : (0xF0 : UInt8) &&& 0x0F = 0 := by decide
  have hdistrib : ((current &&& 0xF0) ||| low) &&& 0x0F = (current &&& 0xF0 &&& 0x0F) ||| (low &&& 0x0F) :=
    UInt8.toBitVec_inj.mp BitVec.and_or_distrib_right
  rw [withNibble, withNibble, if_pos (by omega), if_neg (by omega), hdistrib, UInt8.and_assoc, hzero,
    UInt8.and_zero, UInt8.zero_or, hlow']

theorem encodeNibble_lt (source : Pointer) : format.encodeNibble source < 16 := by
  rw [encodeNibble, Color.convert8To4, UInt8.lt_iff_toNat_lt, UInt8.toNat_shiftRight]
  have hlt := (if format = color .I4 then Color.averageRgbComponents source.vec4
    else source.vec4.a).toNat_lt
  simp [Nat.shiftRight_eq_div_pow]
  omega

theorem foldlM_range_pairs {σ : Type} (f : σ → Nat → Option σ) (n : Nat) (s : σ) :
    (List.range (2 * n)).foldlM f s =
      (List.range n).foldlM (fun s j => (f s (2 * j)).bind (f · (2 * j + 1))) s := by
  induction n with
  | zero => rfl
  | succ n ih =>
      rw [Nat.mul_succ, List.range_succ, List.range_succ, List.range_succ, List.foldlM_append,
        List.foldlM_append, List.foldlM_append, ih]
      cases (List.range n).foldlM (fun s j => (f s (2 * j)).bind (f · (2 * j + 1))) s with
      | none => rfl
      | some s =>
          simp [List.foldlM_cons]

section Row

variable {stride : UInt32} {window : Pointer} {y : Nat}

/-- The bytes that a row of pixels has in its tile. -/
def rowArea (format : SurfaceFormat) (y : Nat) : Set Nat :=
  if format.Is4Bit then {i | ∃ j ∈ List.range 4, i = mortonInterleave (2 * j) y / 2}
  else {i | ∃ x ∈ List.range 8, mortonInterleave x y * (format.bpp / 8) ≤ i ∧
    i < mortonInterleave x y * (format.bpp / 8) + format.bpp / 8}

theorem encodeTilePixel_of_is4Bit (h4 : format.Is4Bit)
    (hfits : (7 * stride.toNat + 8) * format.linearBytesPerPixel converted < 2 ^ 32) {x : Nat} (hx : x < 8)
    (hy : y < 8) {l : List UInt8} {k : Nat} (hk : mortonInterleave x y / 2 = k) {current : UInt8}
    (hbyte : l[k]? = some current) :
    format.encodeTilePixel depth converted stride
        ⟨window, (7 * stride.toNat + 8) * format.linearBytesPerPixel converted⟩ y l x =
      some (l.set k (withNibble (mortonInterleave x y) current
        (format.encodeNibble (format.linearPixel converted stride.toNat window x y)))) := by
  have hslice : slice l 0 0 = some [] := slice_eq_some.mpr ⟨Nat.zero_le _, rfl⟩
  simp only [encodeTilePixel, (bpp_of_is4Bit h4).1, Nat.mul_zero, hslice, Option.bind_eq_bind,
    Option.bind_some, if_pos h4, toNat_linearPixelOffset hfits hx hy, subspan_linearPixel hx,
    Nat.shiftRight_one, hk, hbyte]
  rfl

theorem encodePair_paints (h4 : format.Is4Bit)
    (hfits : (7 * stride.toNat + 8) * format.linearBytesPerPixel converted < 2 ^ 32) {j : Nat} (hj : j < 4)
    (hy : y < 8) :
    Paints format.tileBytes (format.tileCode depth converted stride.toNat window)
      {mortonInterleave (2 * j) y / 2}
      (fun l => (format.encodeTilePixel depth converted stride
          ⟨window, (7 * stride.toNat + 8) * format.linearBytesPerPixel converted⟩ y l (2 * j)).bind
        (format.encodeTilePixel depth converted stride
          ⟨window, (7 * stride.toNat + 8) * format.linearBytesPerPixel converted⟩ y · (2 * j + 1))) := by
  intro l hl
  obtain ⟨heven, hodd⟩ := mortonInterleave_pair hj hy
  have hsize := (bpp_of_is4Bit h4).2
  have hplace := mortonInterleave_lt (2 * j) y
  have hk : mortonInterleave (2 * j) y / 2 < l.length := by omega
  have hcode : format.tileCode depth converted stride.toNat window (mortonInterleave (2 * j) y / 2) =
      (format.encodeNibble (format.linearPixel converted stride.toNat window (2 * j + 1) y) <<< 4) |||
        format.encodeNibble (format.linearPixel converted stride.toNat window (2 * j) y) := by
    have hlow : 2 * (mortonInterleave (2 * j) y / 2) = mortonInterleave (2 * j) y := by omega
    rw [tileCode, if_pos h4, hlow, ← hodd, placedPixel_mortonInterleave (by omega) hy,
      placedPixel_mortonInterleave (by omega) hy]
  refine ⟨_, ?_, painted_set hk⟩
  beta_reduce
  rw [encodeTilePixel_of_is4Bit h4 hfits (by omega) hy rfl (List.getElem?_eq_getElem hk), Option.bind_some,
    encodeTilePixel_of_is4Bit h4 hfits (by omega) hy (by omega) (List.getElem?_set_self hk), hodd,
    withNibble_pair heven _ (encodeNibble_lt _), List.set_set, hcode]

theorem encodeRow_paints (hcompressed : ¬ format.IsCompressed)
    (hfits : (7 * stride.toNat + 8) * format.linearBytesPerPixel converted < 2 ^ 32) (hy : y < 8) :
    Paints format.tileBytes (format.tileCode depth converted stride.toNat window) (rowArea format y)
      (fun l => (List.range 8).foldlM (format.encodeTilePixel depth converted stride
        ⟨window, (7 * stride.toNat + 8) * format.linearBytesPerPixel converted⟩ y) l) := by
  by_cases h4 : format.Is4Bit
  · simp only [rowArea, if_pos h4, foldlM_range_pairs _ 4]
    exact Paints.foldlM fun j hj => encodePair_paints h4 hfits (List.mem_range.mp hj) hy
  · simp only [rowArea, if_neg h4]
    exact Paints.foldlM fun x hx => encodeTilePixel_paints h4 hcompressed hfits (List.mem_range.mp hx) hy

theorem exists_mem_rowArea (hcompressed : ¬ format.IsCompressed) {i : Nat} (hi : i < format.tileBytes) :
    ∃ y ∈ List.range 8, i ∈ rowArea format y := by
  by_cases h4 : format.Is4Bit
  · have hsize := (bpp_of_is4Bit h4).2
    have hplace := mortonInterleave_mortonX (m := 2 * i) (by omega)
    have heven : mortonX (2 * i) % 2 = 0 := by
      unfold mortonX
      omega
    have hcolumn := mortonX_lt (2 * i)
    refine ⟨mortonY (2 * i), List.mem_range.mpr (mortonY_lt _), ?_⟩
    rw [rowArea, if_pos h4]
    refine ⟨mortonX (2 * i) / 2, List.mem_range.mpr (by omega), ?_⟩
    rw [Nat.mul_div_cancel' (Nat.dvd_of_mod_eq_zero heven), hplace]
    omega
  · obtain ⟨hsize, hpos⟩ := tileBytes_of_bytes h4 hcompressed
    have hlt : i / (format.bpp / 8) < 64 := Nat.div_lt_of_lt_mul (by rwa [Nat.mul_comm, ← hsize])
    have hplace := mortonInterleave_mortonX hlt
    refine ⟨mortonY (i / (format.bpp / 8)), List.mem_range.mpr (mortonY_lt _), ?_⟩
    rw [rowArea, if_neg h4]
    refine ⟨mortonX (i / (format.bpp / 8)), List.mem_range.mpr (mortonX_lt _), ?_⟩
    rw [hplace]
    exact ⟨Nat.div_mul_le_self .., Nat.lt_div_mul_add hpos⟩

/-- Whatever is in a tile, its pixels overwrite it with their codes. -/
theorem encodeTile_eq (hcompressed : ¬ format.IsCompressed)
    (hfits : (7 * stride.toNat + 8) * format.linearBytesPerPixel converted < 2 ^ 32) {l : List UInt8}
    (hl : l.length = format.tileBytes) :
    format.encodeTile depth converted stride
        ⟨window, (7 * stride.toNat + 8) * format.linearBytesPerPixel converted⟩ l =
      some (format.tileCodes depth converted stride.toNat window) := by
  have hpaints : ∀ y ∈ List.range 8, Paints format.tileBytes (format.tileCode depth converted stride.toNat window)
      (rowArea format y) (fun l => (List.range 8).foldlM (format.encodeTilePixel depth converted stride
        ⟨window, (7 * stride.toNat + 8) * format.linearBytesPerPixel converted⟩ y) l) :=
    fun y hy => encodeRow_paints hcompressed hfits (List.mem_range.mp hy)
  obtain ⟨l', hl', hpainted⟩ := Paints.foldlM hpaints l hl
  have hcodes := hpainted.eq_map fun i hi => exists_mem_rowArea hcompressed (hl ▸ hi)
  rw [hl] at hcodes
  exact hl'.trans (congrArg some hcodes)

end Row

end Cytrus.VideoCore.SurfaceFormat
