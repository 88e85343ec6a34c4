import Cytrus.VideoCore.SurfaceGeometry

/-!
# Sub-surfaces and their rectangles

The rectangle of a sub-surface counts the rows of a tiled surface from the
bottom of its level, and the interval of a rectangle from the bottom of the
first level, so that the two undo each other in the first level only.

## Main results

* `getSubRectInterval_getSubRect`: when the rectangle of a sub-surface has the
  interval of the sub-surface
-/

namespace Cytrus.VideoCore.Geometry

theorem absolute_eq_zero {d : UInt32} : absolute d = 0 ↔ d = 0 := by
  unfold absolute
  split
  · exact Iff.rfl
  · constructor <;> grind

theorem toNat_absolute_sub {x y : UInt32} {n : Nat} (h : x.toNat + n = y.toNat ∨ y.toNat + n = x.toNat)
    (hn : n < 2 ^ 31) : (absolute (x - y)).toNat = n := by
  have hsub : (x - y).toNat = (2 ^ 32 - y.toNat + x.toNat) % 2 ^ 32 := UInt32.toNat_sub ..
  have hlt : x - y < 0x80000000 ↔ (x - y).toNat < 2 ^ 31 := UInt32.lt_iff_toNat_lt
  have hneg : (-(x - y)).toNat = (2 ^ 32 - (x - y).toNat) % 2 ^ 32 := UInt32.toNat_neg ..
  have hy := y.toNat_lt
  unfold absolute
  split
  · next hsmall =>
    rw [hlt] at hsmall
    omega
  · next hlarge =>
    rw [hlt] at hlarge
    omega

theorem absolute_of_lt {d : UInt32} (h : d.toNat < 2 ^ 31) : absolute d = d :=
  if_pos (UInt32.lt_iff_toNat_lt.mpr h)

theorem toNat_absolute_neg {d : UInt32} (h : d.toNat < 2 ^ 31) : (absolute (-d)).toNat = d.toNat := by
  have hzero : (0 : UInt32).toNat = 0 := rfl
  rw [← UInt32.zero_sub]
  exact toNat_absolute_sub (.inl (by rw [hzero, Nat.zero_add])) h

theorem alignDown_of_dvd {x : UInt32} (h : x.toNat % 8 = 0) : alignDown x 8 = x := by
  have hmod : x % 8 = 0 := UInt32.toNat_inj.mp ((UInt32.toNat_mod ..).trans h)
  rw [alignDown, hmod, UInt32.sub_zero]

theorem alignUp_of_dvd {x : UInt32} (h : x.toNat % 8 = 0) : alignUp x 8 = x := by
  have hmod : x % 8 = 0 := UInt32.toNat_inj.mp ((UInt32.toNat_mod ..).trans h)
  simp only [alignUp, hmod, if_true, UInt32.sub_zero]

namespace SurfaceParams

variable {s sub r r' : SurfaceParams} {level tile columns rows fine m w n : Nat}

/-- The bytes from the first to the last pixel of the first level. -/
def spanBytes (s : SurfaceParams) : Nat := s.rectSpan * s.pixelFormat.bpp / 8

/-- The numbers of a sub-surface do not exceed 32 bits. -/
structure Fits (s : SurfaceParams) : Prop where
  levels : 0 < s.levels.toNat
  bits : s.rectSpan * s.pixelFormat.bpp < 2 ^ 32
  stop : s.addr.toNat + (if s.levels = 1 then s.spanBytes else s.bytesBelow s.levels.toNat) < 2 ^ 32

/-- When the rectangle of a sub-surface has its interval. In a tiled surface its rows have to
be in the first level: further ones wrap around, and add twice their bits instead of none. -/
def SubRectExact (s sub : SurfaceParams) : Prop :=
  if sub.width = 0 ∨ sub.height = 0 then sub.getInterval.isEmpty = true
  else if s.isTiled = false ∨
      s.levelOf sub.addr = 0 ∧ sub.addr.toNat + sub.spanBytes ≤ s.addr.toNat + s.levelBytes 0 then
    sub.stop.toNat = sub.addr.toNat + sub.spanBytes
  else s.levelOf sub.addr = 0 ∧
    2 ^ 32 ∣ 2 * s.stride.toNat * sub.height.toNat * s.pixelFormat.bpp +
      8 * (sub.stop.toNat - (sub.addr.toNat + sub.spanBytes))

/-- What `CanSubRect` finds out. -/
structure SubSurface (s sub : SurfaceParams) : Prop where
  addr : s.addr ≤ sub.addr
  stop : sub.stop ≤ s.stop
  pixelFormat : sub.pixelFormat = s.pixelFormat
  isTiled : sub.isTiled = s.isTiled
  tiledAlignment : s.tiledAlignment ≠ 0
  aligned : (sub.addr - s.mipmapOffsets (s.levelOf sub.addr)) % s.tiledAlignment = 0
  stride : sub.stride = s.stride >>> UInt32.ofNat (s.levelOf sub.addr) ∨ sub.height ≤ s.tiledSize
  rect : ∃ rect, s.getSubRect sub = some rect ∧ rect.right ≤ s.stride

theorem subSurface_of_canSubRect (h : s.canSubRect sub = some true) : s.SubSurface sub := by
  simp only [canSubRect] at h
  split_ifs at h with hin hzero halign
  · obtain ⟨haddr, hstop, hformat, htiled⟩ := hin
    obtain ⟨rect, hrect, hright⟩ := Option.map_eq_some_iff.mp h
    exact ⟨haddr, hstop, hformat, htiled, hzero, halign.1, halign.2, rect, hrect,
      of_decide_eq_true hright⟩
  all_goals cases h

theorem getSubRect_dimensions {rect : Rectangle} (h : s.getSubRect sub = some rect) :
    rect.getWidth = absolute sub.width ∧ rect.getHeight = absolute (-sub.height) := by
  unfold getSubRect at h
  dsimp only at h
  unfold Rectangle.getWidth Rectangle.getHeight
  split_ifs at h
  all_goals
    obtain rfl := Option.some.inj h
    dsimp only
    constructor <;> congr 1 <;> grind

theorem getSubRectInterval_empty {rect : Rectangle} (h : s.getSubRect sub = some rect)
    (hzero : sub.width = 0 ∨ sub.height = 0) : s.getSubRectInterval rect level = ⟨0, 0⟩ := by
  obtain ⟨hwidth, hheight⟩ := getSubRect_dimensions h
  refine if_pos ?_
  rw [hwidth, hheight, absolute_eq_zero, absolute_eq_zero]
  grind

theorem Fits.spanBytes_le (h : sub.Fits) (hupdate : r.updateParams = some sub)
    (hheight : 0 < sub.height.toNat) (htiled : sub.isTiled = true → 8 ∣ sub.height.toNat) :
    sub.addr.toNat + sub.spanBytes ≤ sub.stop.toNat := by
  obtain ⟨hlevels, hbits, hstop⟩ := h
  have hroom : (if sub.isTiled then 8 else 1) ≤ sub.height.toNat := by
    split
    · exact Nat.le_of_dvd hheight (htiled ‹_›)
    · exact hheight
  rcases updateParams_eq_some hupdate with ⟨hone, -, hend⟩ | ⟨hstride, -, -, hend⟩
  · have hspan := toNat_pixelSpan hroom ((Nat.le_mul_of_pos_right _ (bpp_pos _)).trans_lt hbits)
    have hbytes : (sub.bytesInPixels sub.pixelSpan).toNat = sub.spanBytes := by
      rw [toNat_bytesInPixels (by rwa [hspan]), hspan, spanBytes]
    rw [if_pos hone] at hstop
    rw [hend, toNat_add_of_lt rfl hbytes hstop]
  · have hspan := rectSpan_eq hstride hheight htiled
    have hlevel : sub.spanBytes = sub.levelBytes 0 := by
      rw [spanBytes, hspan]
      rfl
    rw [hspan] at hbits
    have hmono := sub.bytesBelow_mono (show 1 ≤ _ from hlevels)
    have hfirst : sub.bytesBelow 1 = sub.levelBytes 0 := Nat.zero_add _
    have hroom : sub.addr.toNat + sub.bytesBelow sub.levels.toNat < 2 ^ 32 := by
      split at hstop
      · next hone =>
        have hlevels : sub.levels.toNat = 1 := by rw [hone]; rfl
        rwa [hlevels, hfirst, ← hlevel]
      · exact hstop
    have hsize := toNat_calculateSurfaceSize hbits (lt_of_le_of_lt (Nat.le_add_left ..) hroom)
    rw [hend, toNat_add_of_lt rfl hsize hroom, hlevel, ← hfirst]
    exact Nat.add_le_add_left hmono _

theorem Shaped.width_eq (h : s.Shaped) (htiled : s.isTiled = true) (hlevel : level < s.levels.toNat) :
    s.width.toNat = (s.width.toNat >>> level) * 2 ^ level := by
  induction level with
  | zero => exact (Nat.mul_one _).symm
  | succ level ih =>
      obtain ⟨n, hn⟩ := h.width level (by omega) htiled
      have hwidth := ih (by omega)
      have hhalf : s.width.toNat >>> (level + 1) = 4 * n := by
        rw [Nat.shiftRight_succ, hn]
        omega
      rw [hhalf]
      rw [hn] at hwidth
      calc s.width.toNat = 8 * n * 2 ^ level := hwidth
        _ = 4 * n * 2 ^ (level + 1) := by ring

/-- A sub-surface in a level, in tiles. -/
structure Placed (s : SurfaceParams) (level tile columns rows fine m w n : Nat) (sub : SurfaceParams) :
    Prop where
  isLevel : s.Level level tile columns rows fine
  levelOf : s.levelOf sub.addr = level
  addr : sub.addr.toNat = s.addr.toNat + s.bytesBelow level + fine * m
  lt : m < columns * rows
  width : sub.width.toNat = tile * w
  height : sub.height.toNat = tile * n
  w_pos : 0 < w
  n_pos : 0 < n
  span : sub.spanBytes = fine * (columns * (n - 1) + w)
  stop : sub.addr.toNat + sub.spanBytes ≤ sub.stop.toNat
  bound : (sub.stop.toNat - (s.addr.toNat + s.bytesBelow level)) < 2 ^ 29

theorem Level.toNat_bytes (h : s.Level level tile columns rows fine) {x : UInt32} {k : Nat}
    (hx : x.toNat = tile * tile * k % 2 ^ 32) : (s.bytesInPixels x).toNat = fine * k % 2 ^ 29 := by
  have hbits : tile * tile * k * s.pixelFormat.bpp = fine * k * 8 := by
    calc tile * tile * k * s.pixelFormat.bpp = k * (tile * tile * s.pixelFormat.bpp) := by ring
      _ = fine * k * 8 := by
        rw [← h.bits]
        ring
  have hmod : tile * tile * k % 2 ^ 32 * s.pixelFormat.bpp % 2 ^ 32 = fine * k * 8 % 2 ^ 32 := by
    rw [← hbits, Nat.mod_mul_mod]
  rw [bytesInPixels, UInt32.toNat_div, UInt32.toNat_mul, toNat_bpp, hx, hmod]
  change fine * k * 8 % (2 ^ 29 * 8) / 8 = _
  rw [Nat.mul_mod_mul_right, Nat.mul_div_cancel _ (by decide)]

theorem equals_getInterval {offset x y : UInt32} {start a b : Nat} (hoffset : offset.toNat = start)
    (haddr : sub.addr.toNat = start + a) (hstop : sub.stop.toNat = start + b) (hab : a < b) :
    (SurfaceInterval.mk (offset + x) (offset + y)).equals sub.getInterval = true ↔
      x.toNat = a ∧ y.toNat = b := by
  have hnonempty : sub.getInterval.isEmpty = false := by
    apply decide_eq_false
    rw [getInterval, UInt32.le_iff_toNat_le, haddr, hstop]
    omega
  have ha := toNat_sub_of_add haddr hoffset
  have hb := toNat_sub_of_add hstop hoffset
  have hx : offset + x = sub.addr ↔ x.toNat = a := by
    rw [← ha, UInt32.toNat_inj]
    constructor <;> grind
  have hy : offset + y = sub.stop ↔ y.toNat = b := by
    rw [← hb, UInt32.toNat_inj]
    constructor <;> grind
  rw [SurfaceInterval.equals, hnonempty, Bool.and_false, Bool.false_or, decide_eq_true_iff,
    ← hx, ← hy, getInterval, SurfaceInterval.mk.injEq]

namespace Placed

theorem small (h : s.Placed level tile columns rows fine m w n sub) : n ≤ 2 ^ 29 ∧ w < 2 ^ 29 := by
  have hstop := h.stop
  have hbound := h.bound
  have hle : columns * (n - 1) + w ≤ fine * (columns * (n - 1) + w) :=
    Nat.le_mul_of_pos_left _ h.isLevel.fine_pos
  have hrows : n - 1 ≤ columns * (n - 1) := Nat.le_mul_of_pos_left _ h.isLevel.columns_pos
  rw [h.span] at hstop
  have := h.addr
  omega

theorem interval_linear (h : s.Placed level tile columns rows fine m w n sub) (hno : s.NoOverflow)
    (hc : s.Completed) (hstride : s.stride = s.width) (htiled : s.isTiled = false) :
    ∃ rect p u, s.getSubRect sub = some rect ∧
      s.getSubRectInterval rect level =
        ⟨s.mipmapOffsets level + s.bytesInPixels p, s.mipmapOffsets level + s.bytesInPixels u⟩ ∧
      p.toNat = tile * tile * m % 2 ^ 32 ∧
      u.toNat = tile * tile * (m + (n - 1) * columns + w) % 2 ^ 32 := by
  have hl := h.isLevel
  obtain ⟨hn, hw⟩ := h.small
  obtain rfl : tile = 1 := by rw [hl.tile_eq, if_neg (by simp [htiled])]
  have hm : fine * m < s.levelBytes level := by
    rw [hl.levelBytes_eq, Nat.mul_comm]
    exact Nat.mul_lt_mul_of_pos_right h.lt hl.fine_pos
  obtain ⟨x0, y0, hx0, hy0, hrect⟩ := getSubRect_eq hl hno hc hstride h.addr hm
  rw [htiled] at hrect
  simp only [Bool.false_eq_true, if_false, Nat.mul_one] at hrect hx0 hy0
  have hstrideLod : (s.stride >>> UInt32.ofNat level).toNat = columns := by
    rw [toNat_shiftRight _ (hl.lt_32 hc), hstride, hl.width, Nat.one_mul]
  have hwidth : sub.width.toNat = w := h.width.trans (Nat.one_mul _)
  have hheight : sub.height.toNat = n := h.height.trans (Nat.one_mul _)
  have hone : (1 : UInt32).toNat = 1 := rfl
  have hrectWidth : absolute (x0 + sub.width - x0) = sub.width := by
    rw [show x0 + sub.width - x0 = sub.width by grind, absolute_of_lt (by omega)]
  have hrectHeight : (absolute (y0 - (y0 + sub.height))).toNat = n := by
    rw [show y0 - (y0 + sub.height) = -sub.height by grind, toNat_absolute_neg (by omega), hheight]
  have hrows : (absolute (y0 - (y0 + sub.height)) - 1).toNat = n - 1 := by
    rw [UInt32.toNat_sub_of_le _ _ (by rw [UInt32.le_iff_toNat_le, hrectHeight]; exact h.n_pos),
      hrectHeight, hone]
  have hne : ¬ (absolute (y0 - (y0 + sub.height)) = 0 ∨ absolute (x0 + sub.width - x0) = 0) := by
    have hn_pos := h.n_pos
    have hw_pos := h.w_pos
    rw [hrectWidth, ← UInt32.toNat_inj, ← UInt32.toNat_inj, hrectHeight, hwidth, UInt32.toNat_zero]
    omega
  have hoffset : ((s.stride >>> UInt32.ofNat level) * y0 + x0).toNat = m % 2 ^ 32 := by
    have hdiv := Nat.div_add_mod m columns
    rw [UInt32.toNat_add, UInt32.toNat_mul, hstrideLod, hx0, hy0]
    omega
  refine ⟨_, (s.stride >>> UInt32.ofNat level) * y0 + x0,
    (s.stride >>> UInt32.ofNat level) * y0 + x0 +
      ((absolute (y0 - (y0 + sub.height)) - 1) * (s.stride >>> UInt32.ofNat level) +
        absolute (x0 + sub.width - x0)), hrect, ?_, ?_, ?_⟩
  · rw [getSubRectInterval, Rectangle.getHeight, Rectangle.getWidth, if_neg hne]
    simp only [htiled, Bool.false_eq_true, if_false]
    rfl
  · rw [hoffset]
    omega
  · rw [UInt32.toNat_add, hoffset, UInt32.toNat_add, UInt32.toNat_mul, hrows, hstrideLod,
      hrectWidth, hwidth]
    omega

theorem small_of_tiled (h : s.Placed level 8 columns rows fine m w n sub) : n ≤ 2 ^ 24 ∧ w < 2 ^ 24 := by
  have hstop := h.stop
  have hbound := h.bound
  have haddr := h.addr
  have hbits := h.isLevel.bits
  have hfour := Nat.le_of_dvd (bpp_pos s.pixelFormat) (four_dvd_bpp s.pixelFormat)
  have hle : 32 * (columns * (n - 1) + w) ≤ fine * (columns * (n - 1) + w) :=
    Nat.mul_le_mul_right _ (by omega)
  have hrows : n - 1 ≤ columns * (n - 1) := Nat.le_mul_of_pos_left _ h.isLevel.columns_pos
  rw [h.span] at hstop
  omega

theorem toNat_strideTiled (h : s.Level level 8 columns rows fine) (hshaped : s.Shaped)
    (hno : s.NoOverflow) (hc : s.Completed) (htiled : s.isTiled = true) :
    ((s.stride * 8) >>> UInt32.ofNat level).toNat = 8 * 8 * columns := by
  have hheight : 8 ≤ s.height.toNat := by
    have hle : s.height.toNat >>> level ≤ s.height.toNat := Nat.shiftRight_le ..
    have hrows := h.rows_pos
    rw [h.height] at hle
    omega
  have hmul : (s.stride * 8).toNat = s.width.toNat * 8 := by
    have hbits := (Nat.le_mul_of_pos_right _ (bpp_pos s.pixelFormat)).trans_lt hno.bits
    rw [hshaped.stride, UInt32.toNat_mul]
    exact Nat.mod_eq_of_lt ((Nat.mul_le_mul_left _ hheight).trans_lt hbits)
  have hwidth := hshaped.width_eq htiled h.lt
  rw [h.width] at hwidth
  rw [toNat_shiftRight _ (h.lt_32 hc), hmul, hwidth, Nat.shiftRight_eq_div_pow]
  apply Nat.div_eq_of_eq_mul_left (Nat.two_pow_pos level)
  ring

/-- The rows of the rectangle of a sub-surface in a tiled surface. -/
def rowCount (rows y n : Nat) : Nat := if y + n ≤ rows then n else 2 ^ 29 - n

theorem interval_tiled (h : s.Placed level tile columns rows fine m w n sub) (hshaped : s.Shaped)
    (hno : s.NoOverflow) (hc : s.Completed) (htiled : s.isTiled = true) :
    ∃ rect p u, s.getSubRect sub = some rect ∧
      s.getSubRectInterval rect level =
        ⟨s.mipmapOffsets level + s.bytesInPixels p, s.mipmapOffsets level + s.bytesInPixels u⟩ ∧
      p.toNat = tile * tile *
        (columns * (s.height.toNat / 8 - (rows - m / columns)) + m % columns) % 2 ^ 32 ∧
      u.toNat = tile * tile * (columns * (s.height.toNat / 8 - (rows - m / columns)) + m % columns +
        (rowCount rows (m / columns) n - 1) * columns + w) % 2 ^ 32 := by
  have hl := h.isLevel
  have hstride := hshaped.stride
  obtain rfl : tile = 8 := by rw [hl.tile_eq, if_pos htiled]
  have hm : fine * m < s.levelBytes level := by
    rw [hl.levelBytes_eq, Nat.mul_comm]
    exact Nat.mul_lt_mul_of_pos_right h.lt hl.fine_pos
  obtain ⟨x0, y0, hx0, hy0, hrect⟩ := getSubRect_eq hl hno hc hstride h.addr hm
  rw [htiled] at hrect
  simp only [if_true] at hrect
  have hy : m / columns < rows := Nat.div_lt_of_lt_mul h.lt
  generalize m % columns = x at *
  generalize m / columns = y at *
  have hn_pos := h.n_pos
  have hw_pos := h.w_pos
  have hwidth := h.width
  have hheight := h.height
  have hheightLod : (s.height >>> UInt32.ofNat level).toNat = 8 * rows := by
    rw [toNat_shiftRight _ (hl.lt_32 hc), hl.height]
  have hlt := s.height.toNat_lt
  have hrows : 8 * rows ≤ s.height.toNat := by
    rw [← hl.height]
    exact Nat.shiftRight_le ..
  obtain ⟨hn, hw⟩ := h.small_of_tiled
  have height : (8 : UInt32).toNat = 8 := rfl
  have htop : (s.height >>> UInt32.ofNat level - y0).toNat = 8 * (rows - y) := by
    rw [UInt32.toNat_sub_of_le _ _ (by rw [UInt32.le_iff_toNat_le, hheightLod, hy0]; omega),
      hheightLod, hy0]
    omega
  have hbottom : (s.height >>> UInt32.ofNat level - (y0 + sub.height)).toNat =
      8 * ((2 ^ 29 + rows - (y + n)) % 2 ^ 29) := by
    rw [UInt32.toNat_sub, UInt32.toNat_add, hheightLod, hy0, hheight]
    omega
  have hright : (x0 + sub.width).toNat % 8 = 0 := by
    rw [UInt32.toNat_add, hx0, hwidth]
    omega
  have hstrideTiled := toNat_strideTiled hl hshaped hno hc htiled
  generalize s.height >>> UInt32.ofNat level - y0 = top at *
  have hne : ¬ ((⟨x0, top, x0 + sub.width, s.height >>> UInt32.ofNat level - (y0 + sub.height)⟩ :
      Rectangle).getHeight = 0 ∨ (⟨x0, top, x0 + sub.width,
        s.height >>> UInt32.ofNat level - (y0 + sub.height)⟩ : Rectangle).getWidth = 0) := by
    obtain ⟨hrectWidth, hrectHeight⟩ := getSubRect_dimensions hrect
    rw [hrectWidth, hrectHeight, absolute_eq_zero, absolute_eq_zero]
    intro hzero
    have hcases : sub.height = 0 ∨ sub.width = 0 := by grind
    rw [← UInt32.toNat_inj, ← UInt32.toNat_inj, hwidth, hheight, UInt32.toNat_zero] at hcases
    omega
  generalize s.height >>> UInt32.ofNat level - (y0 + sub.height) = bottom at *
  have htopRow : (top / 8).toNat = rows - y := by
    rw [UInt32.toNat_div, htop, height]
    omega
  have hbottomRow : (bottom / 8).toNat = (2 ^ 29 + rows - (y + n)) % 2 ^ 29 := by
    rw [UInt32.toNat_div, hbottom, height]
    omega
  have hrectRows : (absolute (bottom / 8 - top / 8)).toNat = rowCount rows y n := by
    unfold rowCount
    apply toNat_absolute_sub
    · rw [htopRow, hbottomRow]
      split <;> omega
    · split <;> omega
  have hlast : (absolute (bottom / 8 - top / 8) - 1).toNat = rowCount rows y n - 1 := by
    have hpos : 1 ≤ rowCount rows y n := by
      unfold rowCount
      split <;> omega
    rw [UInt32.toNat_sub_of_le _ _ (by rw [UInt32.le_iff_toNat_le, hrectRows]; exact hpos), hrectRows]
    rfl
  have hrectWidth : (absolute ((x0 + sub.width) * 8 - x0 * 8)).toNat = 8 * 8 * w := by
    have hmul : (sub.width * 8).toNat = 8 * 8 * w := by
      rw [UInt32.toNat_mul, hwidth, height]
      omega
    rw [show (x0 + sub.width) * 8 - x0 * 8 = sub.width * 8 by grind, absolute_of_lt (by omega), hmul]
  have hskipped : (s.height / 8 - top / 8).toNat = s.height.toNat / 8 - (rows - y) := by
    have hdiv : (s.height / 8).toNat = s.height.toNat / 8 := UInt32.toNat_div ..
    rw [UInt32.toNat_sub_of_le _ _ (by rw [UInt32.le_iff_toNat_le, hdiv, htopRow]; omega), hdiv, htopRow]
  have hoffset : ((s.stride * 8) >>> UInt32.ofNat level * (s.height / 8 - top / 8) + x0 * 8).toNat =
      8 * 8 * (columns * (s.height.toNat / 8 - (rows - y)) + x) % 2 ^ 32 := by
    rw [UInt32.toNat_add, UInt32.toNat_mul, UInt32.toNat_mul, hstrideTiled, hskipped, hx0, height,
      Nat.mul_assoc (8 * 8)]
    omega
  refine ⟨_, (s.stride * 8) >>> UInt32.ofNat level * (s.height / 8 - top / 8) + x0 * 8,
    (s.stride * 8) >>> UInt32.ofNat level * (s.height / 8 - top / 8) + x0 * 8 +
      ((absolute (bottom / 8 - top / 8) - 1) * ((s.stride * 8) >>> UInt32.ofNat level) +
        absolute ((x0 + sub.width) * 8 - x0 * 8)), hrect, ?_, hoffset, ?_⟩
  · rw [getSubRectInterval, if_neg hne]
    simp only [htiled, if_true]
    rw [alignDown_of_dvd (x := x0) (by omega), alignDown_of_dvd (x := bottom) (by omega),
      alignUp_of_dvd hright, alignUp_of_dvd (x := top) (by omega)]
    rfl
  · rw [UInt32.toNat_add, hoffset, UInt32.toNat_add, UInt32.toNat_mul, hlast, hstrideTiled, hrectWidth,
      Nat.mul_left_comm]
    omega

theorem equals_iff (h : s.Placed level tile columns rows fine m w n sub) (hc : s.Completed)
    {p u : UInt32} {k q : Nat} (hp : p.toNat = tile * tile * k % 2 ^ 32)
    (hu : u.toNat = tile * tile * (k + q * columns + w) % 2 ^ 32) :
    (SurfaceInterval.mk (s.mipmapOffsets level + s.bytesInPixels p)
        (s.mipmapOffsets level + s.bytesInPixels u)).equals sub.getInterval = true ↔
      fine * k % 2 ^ 29 = fine * m ∧
        fine * (k + q * columns + w) % 2 ^ 29 =
          sub.stop.toNat - (s.addr.toNat + s.bytesBelow level) := by
  have hstop := h.stop
  have haddr := h.addr
  have hpos : 0 < sub.spanBytes := by
    rw [h.span]
    exact Nat.mul_pos h.isLevel.fine_pos (Nat.add_pos_right _ h.w_pos)
  rw [equals_getInterval (hc.offset _ h.isLevel.lt) haddr
    (b := sub.stop.toNat - (s.addr.toNat + s.bytesBelow level)) (by omega) (by omega),
    h.isLevel.toNat_bytes hp, h.isLevel.toNat_bytes hu]

/-- The interval ends with the first level if the rectangle is counted from the right row and
does not wrap around. -/
theorem ends_iff (h : s.Placed level tile columns rows fine m w n sub) :
    (fine * m % 2 ^ 29 = fine * m ∧ fine * (m + (n - 1) * columns + w) % 2 ^ 29 =
        sub.stop.toNat - (s.addr.toNat + s.bytesBelow level)) ↔
      sub.stop.toNat = sub.addr.toNat + sub.spanBytes := by
  have hstop := h.stop
  have haddr := h.addr
  have hbound := h.bound
  have hspan : fine * (m + (n - 1) * columns + w) = fine * m + sub.spanBytes := by
    rw [h.span]
    ring
  rw [hspan]
  omega

/-- The interval of a rectangle whose rows wrap around. -/
theorem wraps_iff (h : s.Placed level tile columns rows fine m w n sub) (hn : n < 2 ^ 29) :
    (fine * m % 2 ^ 29 = fine * m ∧ fine * (m + (2 ^ 29 - n - 1) * columns + w) % 2 ^ 29 =
        sub.stop.toNat - (s.addr.toNat + s.bytesBelow level)) ↔
      2 ^ 29 ∣ 2 * (columns * n * fine) + (sub.stop.toNat - (sub.addr.toNat + sub.spanBytes)) := by
  have hstop := h.stop
  have haddr := h.addr
  have hbound := h.bound
  have hn_pos := h.n_pos
  have hsum : fine * (m + (2 ^ 29 - n - 1) * columns + w) + 2 * (columns * n * fine) =
      fine * m + sub.spanBytes + fine * columns * 2 ^ 29 := by
    obtain ⟨k, rfl⟩ := Nat.exists_eq_succ_of_ne_zero hn_pos.ne'
    obtain ⟨q, hq⟩ : ∃ q, 2 ^ 29 - (k + 1) - 1 = q := ⟨_, rfl⟩
    have hwhole : 2 ^ 29 = q + k + 2 := by omega
    rw [hq, hwhole, h.span, Nat.succ_eq_add_one, Nat.add_sub_cancel]
    ring
  omega

end Placed

theorem SubSurface.bytes (h : s.SubSurface sub) (htiled : s.isTiled = false) : 8 ≤ s.pixelFormat.bpp := by
  by_contra hlt
  have hone : (1 : UInt32).toNat * s.pixelFormat.bpp = s.pixelFormat.bpp := Nat.one_mul _
  refine h.tiledAlignment (UInt32.toNat_inj.mp ?_)
  rw [SurfaceParams.tiledAlignment, htiled, if_neg Bool.false_ne_true,
    toNat_bytesInPixels (by rw [hone]; omega), hone, Nat.div_eq_of_lt (by omega)]
  rfl

theorem SubSurface.spanBytes_pos (h : s.SubSurface sub) (hwidth : 0 < sub.width.toNat) :
    0 < sub.spanBytes := by
  have hbits : 8 ≤ sub.rectSpan * s.pixelFormat.bpp := by
    cases htiled : s.isTiled with
    | true =>
        have hspan : 8 ≤ sub.rectSpan := by
          rw [rectSpan, if_pos (h.isTiled.trans htiled)]
          omega
        exact hspan.trans (Nat.le_mul_of_pos_right _ (bpp_pos _))
    | false =>
        have hspan : 1 ≤ sub.rectSpan := by
          rw [rectSpan, if_neg (by simp [h.isTiled, htiled])]
          omega
        exact (h.bytes htiled).trans (Nat.le_mul_of_pos_left _ hspan)
  rw [spanBytes, h.pixelFormat]
  omega

theorem Level.spanBytes_eq (h : s.Level level tile columns rows fine) (htiled : sub.isTiled = s.isTiled)
    (hformat : sub.pixelFormat = s.pixelFormat) (hwidth : sub.width.toNat = tile * w)
    (hheight : sub.height.toNat = tile * n) (hstride : sub.stride.toNat = tile * columns ∨ n ≤ 1) :
    sub.spanBytes = fine * (columns * (n - 1) + w) := by
  have hrows : sub.stride.toNat * (n - 1) = tile * columns * (n - 1) := by
    rcases hstride with hstride | hn
    · rw [hstride]
    · rw [Nat.sub_eq_zero_of_le hn, Nat.mul_zero, Nat.mul_zero]
  have hspan : sub.rectSpan = tile * tile * (columns * (n - 1) + w) := by
    unfold rectSpan
    cases hs : s.isTiled with
    | true =>
        obtain rfl : tile = 8 := by rw [h.tile_eq, if_pos hs]
        rw [if_pos (htiled.trans hs), hheight, Nat.mul_div_cancel_left _ (by decide), hwidth,
          Nat.mul_right_comm, hrows]
        ring
    | false =>
        obtain rfl : tile = 1 := by rw [h.tile_eq, if_neg (by simp [hs])]
        rw [if_neg (by simp [htiled, hs]), hheight, hwidth, Nat.one_mul, hrows]
        ring
  have hbits : tile * tile * (columns * (n - 1) + w) * s.pixelFormat.bpp =
      fine * (columns * (n - 1) + w) * 8 := by
    calc tile * tile * (columns * (n - 1) + w) * s.pixelFormat.bpp
        = (tile * tile * s.pixelFormat.bpp) * (columns * (n - 1) + w) := by ring
      _ = fine * (columns * (n - 1) + w) * 8 := by
        rw [← h.bits]
        ring
  rw [spanBytes, hspan, hformat, hbits, Nat.mul_div_cancel _ (by decide)]

theorem SubSurface.exists_placed (h : s.SubSurface sub) (hshaped : s.Shaped) (hno : s.NoOverflow)
    (hc : s.Completed) (htotal : s.bytesBelow s.levels.toNat * 8 < 2 ^ 32)
    (hspan : sub.addr.toNat + sub.spanBytes ≤ sub.stop.toNat) (hwidth : 0 < sub.width.toNat)
    (hheight : 0 < sub.height.toNat)
    (htiled : s.isTiled = true → 8 ∣ sub.width.toNat ∧ 8 ∣ sub.height.toNat) :
    ∃ level tile columns rows fine m w n,
      s.Placed level tile columns rows fine m w n sub := by
  have hpos := h.spanBytes_pos hwidth
  have hstop := UInt32.le_iff_toNat_le.mp h.stop
  obtain ⟨level, hlevel, hlow, hhigh⟩ := hc.exists_level h.addr (UInt32.lt_iff_toNat_lt.mpr (by omega))
  have hlevelOf := hc.levelOf_eq hlevel hlow hhigh
  have hnext : s.bytesBelow (level + 1) = s.bytesBelow level + s.levelBytes level := rfl
  have hbytes : 0 < s.levelBytes level := by omega
  obtain ⟨tile, columns, rows, fine, hl⟩ := hshaped.exists_level hlevel
    (by
      by_contra hzero
      rw [levelBytes, Nat.eq_zero_of_not_pos hzero, Nat.zero_mul, Nat.zero_mul] at hbytes
      exact absurd hbytes (by decide))
    (by
      by_contra hzero
      rw [levelBytes, Nat.eq_zero_of_not_pos hzero, Nat.mul_zero, Nat.zero_mul] at hbytes
      exact absurd hbytes (by decide)) h.bytes
  obtain ⟨m, hm⟩ : fine ∣ sub.addr.toNat - (s.addr.toNat + s.bytesBelow level) := by
    have haligned := UInt32.toNat_inj.mpr h.aligned
    have hoffset := toNat_sub_of_add (Nat.add_sub_cancel' hlow).symm (hc.offset _ hlevel)
    rw [hlevelOf, UInt32.toNat_mod, hoffset, hl.toNat_tiledAlignment hno] at haligned
    exact Nat.dvd_of_mod_eq_zero haligned
  have hdvd : tile ∣ sub.width.toNat ∧ tile ∣ sub.height.toNat := by
    rw [hl.tile_eq]
    split
    · exact htiled ‹_›
    · exact ⟨Nat.one_dvd _, Nat.one_dvd _⟩
  obtain ⟨⟨w, hw⟩, n, hn⟩ := hdvd
  have haddr : sub.addr.toNat = s.addr.toNat + s.bytesBelow level + fine * m := by omega
  refine ⟨level, tile, columns, rows, fine, m, w, n, hl, hlevelOf, haddr, ?_, hw, hn, ?_, ?_, ?_,
    hspan, ?_⟩
  · rw [hnext, hl.levelBytes_eq, haddr] at hhigh
    have hlt : fine * m < fine * (columns * rows) := by
      rw [Nat.mul_comm fine (columns * rows)]
      omega
    exact Nat.lt_of_mul_lt_mul_left hlt
  · exact Nat.pos_of_mul_pos_left (hw ▸ hwidth)
  · exact Nat.pos_of_mul_pos_left (hn ▸ hheight)
  · apply hl.spanBytes_eq h.isTiled h.pixelFormat hw hn
    rcases h.stride with hstride | hrow
    · rw [hstride, hlevelOf, toNat_shiftRight _ (hl.lt_32 hc), hshaped.stride, hl.width]
      exact .inl rfl
    · rw [UInt32.le_iff_toNat_le, hn, hl.toNat_tiledSize] at hrow
      exact .inr (Nat.le_of_mul_le_mul_left (hrow.trans_eq (Nat.mul_one _).symm) hl.tile_pos)
  · rw [hc.stop] at hstop
    omega

theorem Placed.right (h : s.Placed 0 8 columns rows fine m w n sub) (hsub : s.SubSurface sub)
    (hshaped : s.Shaped) (hno : s.NoOverflow) (hc : s.Completed) (htiled : s.isTiled = true) :
    m % columns + w ≤ columns := by
  have hl := h.isLevel
  have hm : fine * m < s.levelBytes 0 := by
    rw [hl.levelBytes_eq, Nat.mul_comm]
    exact Nat.mul_lt_mul_of_pos_right h.lt hl.fine_pos
  obtain ⟨x0, y0, hx0, -, hrect⟩ := getSubRect_eq hl hno hc hshaped.stride h.addr hm
  obtain ⟨rect, hrect', hright⟩ := hsub.rect
  obtain rfl : _ = rect := Option.some.inj (hrect.symm.trans hrect')
  rw [htiled, if_pos rfl, UInt32.le_iff_toNat_le] at hright
  have hwide : s.stride.toNat = 8 * columns := by
    rw [hshaped.stride, ← hl.width]
    rfl
  have hlt := toNat_strideTiled hl hshaped hno hc htiled ▸ UInt32.toNat_lt _
  have hmod := Nat.mod_lt m hl.columns_pos
  obtain ⟨-, hw⟩ := h.small_of_tiled
  rw [toNat_add_of_lt hx0 h.width (by omega), hwide] at hright
  omega

theorem Placed.rows_iff (h : s.Placed 0 8 columns rows fine m w n sub)
    (hright : m % columns + w ≤ columns) :
    m / columns + n ≤ rows ↔ sub.addr.toNat + sub.spanBytes ≤ s.addr.toNat + s.levelBytes 0 := by
  have hl := h.isLevel
  have hdiv := Nat.div_add_mod m columns
  have hw_pos := h.w_pos
  obtain ⟨k, rfl⟩ := Nat.exists_eq_succ_of_ne_zero h.n_pos.ne'
  have haddr : sub.addr.toNat = s.addr.toNat + fine * m := h.addr
  have hspan : fine * m + sub.spanBytes =
      fine * (columns * (m / columns + k) + (m % columns + w)) := by
    rw [h.span, Nat.succ_sub_one]
    nth_rewrite 1 [← hdiv]
    ring
  have hlevel : s.levelBytes 0 = fine * (columns * rows) := by
    rw [hl.levelBytes_eq, Nat.mul_comm]
  have hbytes : sub.addr.toNat + sub.spanBytes ≤ s.addr.toNat + s.levelBytes 0 ↔
      columns * (m / columns + k) + (m % columns + w) ≤ columns * rows := by
    rw [haddr, Nat.add_assoc, Nat.add_le_add_iff_left, hspan, hlevel]
    exact Nat.mul_le_mul_left_iff hl.fine_pos
  rw [hbytes]
  constructor
  · intro hle
    calc columns * (m / columns + k) + (m % columns + w)
        ≤ columns * (m / columns + k) + columns := Nat.add_le_add_left hright _
      _ = columns * (m / columns + k.succ) := by rw [← Nat.mul_succ, Nat.add_succ]
      _ ≤ columns * rows := Nat.mul_le_mul_left _ hle
  · intro hle
    by_contra hgt
    have := Nat.mul_le_mul_left columns (show rows ≤ m / columns + k by omega)
    omega

theorem Placed.counted_eq (h : s.Placed 0 8 columns rows fine m w n sub) :
    columns * (s.height.toNat / 8 - (rows - m / columns)) + m % columns = m := by
  have hheight : s.height.toNat = 8 * rows := h.isLevel.height
  have hrow : m / columns < rows := Nat.div_lt_of_lt_mul h.lt
  have hdiv := Nat.div_add_mod m columns
  rw [hheight, Nat.mul_div_cancel_left _ (by decide), Nat.sub_sub_self hrow.le, hdiv]

/-- The bytes that are added when the rows wrap around, in bits. -/
theorem Placed.wrapped_iff (h : s.Placed 0 8 columns rows fine m w n sub) (hshaped : s.Shaped)
    {rest : Nat} :
    2 ^ 29 ∣ 2 * (columns * n * fine) + rest ↔
      2 ^ 32 ∣ 2 * s.stride.toNat * sub.height.toNat * s.pixelFormat.bpp + 8 * rest := by
  have hwide : s.stride.toNat = 8 * columns := by
    rw [hshaped.stride, ← h.isLevel.width]
    rfl
  have hbits : 2 * s.stride.toNat * sub.height.toNat * s.pixelFormat.bpp =
      8 * (2 * (columns * n * fine)) := by
    calc 2 * s.stride.toNat * sub.height.toNat * s.pixelFormat.bpp
        = 2 * (columns * n) * (8 * 8 * s.pixelFormat.bpp) := by
          rw [hwide, h.height]
          ring
      _ = 8 * (2 * (columns * n * fine)) := by
          rw [← h.isLevel.bits]
          ring
  rw [hbits]
  omega

theorem Placed.skipped_ne (h : s.Placed level 8 columns rows fine m w n sub) (hno : s.NoOverflow)
    (hlevel : 0 < level) :
    fine * (columns * (s.height.toNat / 8 - (rows - m / columns)) + m % columns) % 2 ^ 29 ≠ fine * m := by
  have hl := h.isLevel
  have hdiv := Nat.div_add_mod m columns
  have hmod := Nat.mod_lt m hl.columns_pos
  have hrow : m / columns < rows := Nat.div_lt_of_lt_mul h.lt
  have hhalf : 2 * (8 * rows) ≤ s.height.toNat := by
    obtain ⟨k, rfl⟩ := Nat.exists_eq_succ_of_ne_zero hlevel.ne'
    have hshift : s.height.toNat >>> (k + 1) ≤ s.height.toNat / 2 := by
      rw [Nat.shiftRight_add, Nat.shiftRight_eq_div_pow _ 1, Nat.pow_one]
      exact Nat.div_le_div_right (Nat.shiftRight_le ..)
    have hheight : s.height.toNat >>> (k + 1) = 8 * rows := hl.height
    omega
  generalize m / columns = y at *
  generalize hz : s.height.toNat / 8 - (rows - y) = z
  have hlt : y < z := by omega
  have hle : z < s.height.toNat / 8 := by omega
  have hbits : columns * z + m % columns ≤ columns * (s.height.toNat / 8) := by
    calc columns * z + m % columns ≤ columns * (z + 1) := by rw [Nat.mul_succ]; omega
      _ ≤ columns * (s.height.toNat / 8) := Nat.mul_le_mul_left _ hle
  have hroom : fine * (columns * z + m % columns) * 8 < 2 ^ 32 := by
    have hwidth : 8 * columns ≤ s.width.toNat := hl.width ▸ Nat.shiftRight_le ..
    have hheight : 8 * (s.height.toNat / 8) ≤ s.height.toNat := Nat.mul_div_le ..
    calc fine * (columns * z + m % columns) * 8
        ≤ fine * (columns * (s.height.toNat / 8)) * 8 :=
          Nat.mul_le_mul_right _ (Nat.mul_le_mul_left _ hbits)
      _ = columns * (s.height.toNat / 8) * (fine * 8) := by ring
      _ = (8 * columns) * (8 * (s.height.toNat / 8)) * s.pixelFormat.bpp := by
        rw [hl.bits]
        ring
      _ ≤ s.width.toNat * s.height.toNat * s.pixelFormat.bpp :=
          Nat.mul_le_mul_right _ (Nat.mul_le_mul hwidth hheight)
      _ < 2 ^ 32 := hno.bits
  rw [Nat.mod_eq_of_lt (by omega)]
  intro heq
  have hsame := Nat.eq_of_mul_eq_mul_left hl.fine_pos heq
  have := Nat.mul_lt_mul_of_pos_left hlt hl.columns_pos
  omega

/-- The interval of the rectangle of a sub-surface is the one of the sub-surface in linear
surfaces, and in the first level of tiled ones. -/
theorem getSubRectInterval_getSubRect (h : r.updateParams = some s) (hshaped : s.Shaped)
    (hno : s.NoOverflow) (htotal : s.bytesBelow s.levels.toNat * 8 < 2 ^ 32)
    (h' : r'.updateParams = some sub) (hfits : sub.Fits) (hcan : s.canSubRect sub = some true)
    (htiles : s.isTiled = true → 8 ∣ sub.width.toNat ∧ 8 ∣ sub.height.toNat) :
    (∃ rect, s.getSubRect sub = some rect ∧
      (s.getSubRectInterval rect (s.levelOf sub.addr)).equals sub.getInterval = true) ↔
      s.SubRectExact sub := by
  have hsub := subSurface_of_canSubRect hcan
  have hc := completed_of_updateParams h hshaped hno
  unfold SubRectExact
  by_cases hzero : sub.width = 0 ∨ sub.height = 0
  · obtain ⟨rect, hrect, -⟩ := hsub.rect
    simp only [hrect, Option.some.injEq, exists_eq_left', if_pos hzero,
      getSubRectInterval_empty hrect hzero]
    have hempty : (SurfaceInterval.mk 0 0).isEmpty = true := rfl
    rw [SurfaceInterval.equals, hempty, Bool.true_and, Bool.or_eq_true, decide_eq_true_iff,
      or_iff_left_of_imp]
    rintro hsame
    rw [← hsame, hempty]
  · rw [if_neg hzero]
    have hpos : 0 < sub.width.toNat ∧ 0 < sub.height.toNat := by
      rw [← UInt32.toNat_inj, ← UInt32.toNat_inj, UInt32.toNat_zero] at hzero
      omega
    have hspan := hfits.spanBytes_le h' hpos.2 fun ht => (htiles (hsub.isTiled ▸ ht)).2
    obtain ⟨level, tile, columns, rows, fine, m, w, n, hp⟩ :=
      hsub.exists_placed hshaped hno hc htotal hspan hpos.1 hpos.2 htiles
    rw [hp.levelOf]
    cases htiled : s.isTiled with
    | false =>
        obtain ⟨rect, p, u, hrect, hinterval, hp', hu'⟩ :=
          hp.interval_linear hno hc hshaped.stride htiled
        simp only [hrect, Option.some.injEq, exists_eq_left', hinterval, true_or, if_true,
          hp.equals_iff hc hp' hu', hp.ends_iff]
    | true =>
        obtain rfl : tile = 8 := by rw [hp.isLevel.tile_eq, if_pos htiled]
        obtain ⟨rect, p, u, hrect, hinterval, hp', hu'⟩ := hp.interval_tiled hshaped hno hc htiled
        simp only [hrect, Option.some.injEq, exists_eq_left', hinterval, hp.equals_iff hc hp' hu',
          Bool.true_eq_false, false_or]
        rcases Nat.eq_zero_or_pos level with rfl | hlevel
        · have hin := hp.rows_iff (hp.right hsub hshaped hno hc htiled)
          rw [hp.counted_eq]
          by_cases hrows : m / columns + n ≤ rows
          · rw [Placed.rowCount, if_pos hrows, if_pos ⟨rfl, hin.mp hrows⟩, hp.ends_iff]
          · rw [Placed.rowCount, if_neg hrows, if_neg fun hfirst => hrows (hin.mpr hfirst.2),
              hp.wraps_iff (lt_of_le_of_lt hp.small_of_tiled.1 (by decide)), hp.wrapped_iff hshaped]
            exact (and_iff_right rfl).symm
        · rw [if_neg (fun hfirst => hlevel.ne' hfirst.1)]
          exact iff_of_false (fun hsame => hp.skipped_ne hno hlevel hsame.1)
            fun hfirst => hlevel.ne' hfirst.1

/-- The first tile of the second level, which has two rows of two tiles. -/
def halfTile : SurfaceParams where
  addr := 0x18001000
  width := 8
  height := 8
  stride := 16
  isTiled := true
  pixelFormat := .color .RGBA8

theorem getSubRectInterval_getSubRect_halfTile :
    ∃ s sub, mipmapped.updateParams = some s ∧ halfTile.updateParams = some sub ∧
      ((∃ rect, s.getSubRect sub = some rect ∧
        (s.getSubRectInterval rect (s.levelOf sub.addr)).equals sub.getInterval = true) ↔
        s.SubRectExact sub) :=
  ⟨_, _, rfl, rfl, @getSubRectInterval_getSubRect _ _ mipmapped halfTile rfl
    ⟨rfl, by decide, by decide, by decide⟩ ⟨by decide, by decide⟩ (by decide) rfl
    ⟨by decide, by decide, by decide⟩ (by decide) fun _ => ⟨by decide, by decide⟩⟩

/-- The interval of its rectangle begins 1024 bytes behind it. -/
theorem getSubRectInterval_halfTile :
    ¬ ∀ {r s r' sub : SurfaceParams}, r.updateParams = some s → s.Shaped → s.NoOverflow →
      s.bytesBelow s.levels.toNat * 8 < 2 ^ 32 → r'.updateParams = some sub → sub.Fits →
      s.canSubRect sub = some true →
      (s.isTiled = true → 8 ∣ sub.width.toNat ∧ 8 ∣ sub.height.toNat) →
      ∃ rect, s.getSubRect sub = some rect ∧
        (s.getSubRectInterval rect (s.levelOf sub.addr)).equals sub.getInterval = true := by
  intro h
  obtain ⟨rect, hrect, hsame⟩ := @h mipmapped _ halfTile _ rfl
    ⟨rfl, by decide, by decide, by decide⟩ ⟨by decide, by decide⟩ (by decide) rfl
    ⟨by decide, by decide, by decide⟩ (by decide) fun _ => ⟨by decide, by decide⟩
  obtain rfl := Option.some.inj hrect
  revert hsame
  decide

end SurfaceParams

end Cytrus.VideoCore.Geometry
