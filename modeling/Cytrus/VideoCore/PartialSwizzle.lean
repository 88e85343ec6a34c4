import Cytrus.VideoCore.TileEncoding

/-!
# Swizzling a part of an image

`MortonCopy` writes a range of a tiled image. Tiles that the range has only a part of
are encoded to a buffer, from which that part is copied.

## Main results

* `mortonCopyToTiled_slice`: the bytes that are written are the slice of the whole
  tiled image
* `mortonCopyToTiled_wraps`: the bounds are needed
-/

namespace Cytrus.VideoCore.SurfaceFormat

open Support

/-- The byte of the whole tiled image. -/
def tiledByte (depth : DepthFloat) (format : SurfaceFormat) (converted : Bool) (columns rows : Nat)
    (linear : Pointer) (i : Nat) : UInt8 :=
  format.tileCode depth converted (8 * columns) (linear.advance
    (tileStart columns rows (i / format.tileBytes) * format.linearBytesPerPixel converted)) (i % format.tileBytes)

variable {depth : DepthFloat} {format : SurfaceFormat} {converted : Bool} {width height : UInt32}
  {columns rows k : Nat} {linear : Span} {c : TileCursor}

theorem encodeTileAt_eq (hcompressed : ¬ format.IsCompressed)
    (himage : TiledImage width height columns rows (format.linearBytesPerPixel converted))
    (hlinear : 8 * columns * (8 * rows) * format.linearBytesPerPixel converted ≤ linear.size)
    (hc : OnTile columns rows (format.linearBytesPerPixel converted) k c) (hk : k < columns * rows)
    {buffer : List UInt8} (hbuffer : buffer.length = format.tileBytes) :
    format.encodeTileAt depth converted width linear c buffer =
      some (format.tileCodes depth converted (8 * columns)
        (linear.data.advance (tileStart columns rows k * format.linearBytesPerPixel converted))) := by
  have hwindow := himage.window_le hk
  have hfits := himage.fits
  have htile := @encodeTile_eq depth format converted width
    (linear.data.advance (tileStart columns rows k * format.linearBytesPerPixel converted)) hcompressed
    (by rw [himage.width]; omega) buffer hbuffer
  rw [himage.width] at htile
  have hsubspan : linear.subspan (tileStart columns rows k * format.linearBytesPerPixel converted)
      ((7 * (8 * columns) + 8) * format.linearBytesPerPixel converted) =
        some ⟨linear.data.advance (tileStart columns rows k * format.linearBytesPerPixel converted),
          (7 * (8 * columns) + 8) * format.linearBytesPerPixel converted⟩ := if_pos (by omega)
  rw [encodeTileAt, hc.toNat_linearOffset himage hk, himage.toNat_linearTileStride, hsubspan]
  exact htile

theorem getElem?_tileCodes {j : Nat} (hj : j < format.tileBytes) :
    (format.tileCodes depth converted (8 * columns)
        (linear.data.advance (tileStart columns rows k * format.linearBytesPerPixel converted)))[j]? =
      some (tiledByte depth format converted columns rows linear.data (k * format.tileBytes + j)) := by
  have hdiv : (k * format.tileBytes + j) / format.tileBytes = k := by
    rw [Nat.mul_comm, Nat.mul_add_div format.tileBytes_pos, Nat.div_eq_of_lt hj, Nat.add_zero]
  have hmod : (k * format.tileBytes + j) % format.tileBytes = j := by
    rw [Nat.mul_add_mod', Nat.mod_eq_of_lt hj]
  rw [tileCodes, List.getElem?_map, List.getElem?_range hj, tiledByte, hdiv, hmod]
  rfl

theorem copyPart_painted {source dest : List UInt8} {target : Nat → UInt8} {i n o : Nat}
    (hsource : i + n ≤ source.length) (hdest : o + n ≤ dest.length)
    (hpart : ∀ j < n, source[i + j]? = some (target (o + j))) :
    ∃ dest', copyPart source i n dest o = some dest' ∧
      Painted target {x | o ≤ x ∧ x < o + n} dest dest' := by
  have hlength : ((source.drop i).take n).length = n := by
    rw [List.length_take, List.length_drop]
    omega
  have hslice : slice source i n = some ((source.drop i).take n) := slice_eq_some.mpr ⟨hsource, rfl⟩
  have hroom : slice dest o n = some ((dest.drop o).take n) := slice_eq_some.mpr ⟨hdest, rfl⟩
  refine ⟨overwrite dest o ((source.drop i).take n), ?_, ?_⟩
  · rw [copyPart, hslice, Option.bind_eq_bind, Option.bind_some, hroom]
    rfl
  · have hpainted := @painted_overwrite _ target dest o ((source.drop i).take n) (by rwa [hlength])
      fun j hj => by
        rw [hlength] at hj
        rw [List.getElem?_take_of_lt hj, List.getElem?_drop, hpart j hj]
    rwa [hlength] at hpainted

/-- What `MortonCopy` of a range does not change, and what it asks for: the range is one of
the tiled image, and 32 bits are enough to count the bits in front of its first tile. -/
structure RangeOf (format : SurfaceFormat) (converted : Bool) (columns rows : Nat)
    (width height start stop : UInt32) (linear : Span) (dest : List UInt8) : Prop where
  image : TiledImage width height columns rows (format.linearBytesPerPixel converted)
  encodable : ¬ format.IsCompressed
  linear_size : 8 * columns * (8 * rows) * format.linearBytesPerPixel converted ≤ linear.size
  start_le : start.toNat ≤ stop.toNat
  stop_le : stop.toNat ≤ columns * rows * format.tileBytes
  floor_lt : Grid.floor format.tileBytes start.toNat < 2 ^ 29
  room : stop.toNat - start.toNat ≤ dest.length
  dest_lt : dest.length < 2 ^ 32

/-- The cursor is at the `k`-th tile, and what the range has in front of it is written. -/
structure Reached (depth : DepthFloat) (format : SurfaceFormat) (converted : Bool) (columns rows : Nat)
    (start stop : UInt32) (linear : Span) (dest : List UInt8) (k : Nat)
    (r : TileCursor × List UInt8) : Prop where
  onTile : OnTile columns rows (format.linearBytesPerPixel converted) k r.1
  start_le : start.toNat ≤ k * format.tileBytes
  tile_le : k ≤ columns * rows
  tiledOffset : r.1.tiledOffset.toNat = k * format.tileBytes - start.toNat
  painted : Painted
    (fun i => tiledByte depth format converted columns rows linear.data (start.toNat + i))
    {i | start.toNat + i < min (k * format.tileBytes) stop.toNat} dest r.2

theorem painted_upTo {target : Nat → UInt8} {l m l' : List UInt8} {s p q : Nat}
    (h : Painted target {i | s + i < p} l m)
    (h' : Painted target {i | p ≤ s + i ∧ s + i < q} m l') (hpq : p ≤ q) :
    Painted target {i | s + i < q} l l' := by
  have harea : {i | s + i < p} ∪ {i | p ≤ s + i ∧ s + i < q} = {i | s + i < q} := by
    ext i
    simp only [Set.mem_union, Set.mem_ofPred_eq]
    omega
  exact harea ▸ h.trans h'

section Range

variable {start stop : UInt32} {dest buffer : List UInt8} {r : TileCursor × List UInt8}

theorem RangeOf.ceil_le (h : RangeOf format converted columns rows width height start stop linear dest) :
    Grid.ceil format.tileBytes start.toNat ≤ columns * rows * format.tileBytes :=
  Grid.ceil_le (Nat.dvd_mul_left ..) (h.start_le.trans h.stop_le)

theorem RangeOf.toNat_alignUp
    (h : RangeOf format converted columns rows width height start stop linear dest) :
    (alignUp start (UInt32.ofNat format.tileBytes)).toNat = Grid.ceil format.tileBytes start.toNat := by
  have hlt := h.ceil_le.trans_lt h.image.tiled_lt
  rw [Geometry.toNat_alignUp (by rwa [toNat_tileBytes]), toNat_tileBytes]

theorem copyPart_tile {l : List UInt8} {p q : Nat} (hp : k * format.tileBytes ≤ p) (hpq : p ≤ q)
    (hq : q ≤ (k + 1) * format.tileBytes) (hstart : start.toNat ≤ p) (hroom : q - start.toNat ≤ l.length) :
    ∃ l', copyPart (format.tileCodes depth converted (8 * columns)
        (linear.data.advance (tileStart columns rows k * format.linearBytesPerPixel converted)))
        (p - k * format.tileBytes) (q - p) l (p - start.toNat) = some l' ∧
      Painted (fun i => tiledByte depth format converted columns rows linear.data (start.toNat + i))
        {i | p ≤ start.toNat + i ∧ start.toNat + i < q} l l' := by
  have hsucc : (k + 1) * format.tileBytes = k * format.tileBytes + format.tileBytes := Nat.succ_mul ..
  obtain ⟨l', hcopy, hpaint⟩ := @copyPart_painted
    (format.tileCodes depth converted (8 * columns)
      (linear.data.advance (tileStart columns rows k * format.linearBytesPerPixel converted))) l
    (fun i => tiledByte depth format converted columns rows linear.data (start.toNat + i))
    (p - k * format.tileBytes) (q - p) (p - start.toNat)
    (by rw [length_tileCodes]; omega) (by omega) fun j hj => by
      have hsum : k * format.tileBytes + (p - k * format.tileBytes + j) =
          start.toNat + (p - start.toNat + j) := by omega
      rw [getElem?_tileCodes (by omega), hsum]
  have harea : {x | p - start.toNat ≤ x ∧ x < p - start.toNat + (q - p)} =
      {i | p ≤ start.toNat + i ∧ start.toNat + i < q} := by
    ext x
    simp only [Set.mem_ofPred_eq]
    omega
  exact ⟨l', hcopy, harea ▸ hpaint⟩

theorem encodeHead_reached (h : RangeOf format converted columns rows width height start stop linear dest)
    (hbuffer : buffer.length = format.tileBytes) :
    ∃ k r, k * format.tileBytes = Grid.ceil format.tileBytes start.toNat ∧
      format.encodeHead depth converted width height start stop linear buffer
        (format.beginCursor converted width height (alignDown start (UInt32.ofNat format.tileBytes))) dest =
          some r ∧
      Reached depth format converted columns rows start stop linear dest k r := by
  have hpos := format.tileBytes_pos
  have hup := h.toNat_alignUp
  have hdown := @toNat_alignDown format start
  have hceil := h.ceil_le
  have hfloor := Grid.floor_le format.tileBytes start.toNat
  have hstart := Grid.le_ceil (a := start.toNat) hpos
  have hrange := h.start_le
  have hroom := h.room
  obtain ⟨k, hk⟩ := Grid.dvd_floor format.tileBytes start.toNat
  rw [Nat.mul_comm] at hk
  have hbegin := @onTile_beginCursor width height columns rows k format converted
    (alignDown start (UInt32.ofNat format.tileBytes)) h.image (by rw [hdown, hk])
    (by have := h.floor_lt; omega)
  have hzero : (format.beginCursor converted width height
      (alignDown start (UInt32.ofNat format.tileBytes))).tiledOffset = 0 := rfl
  have hnone : Painted
      (fun i => tiledByte depth format converted columns rows linear.data (start.toNat + i))
      {i | start.toNat + i < start.toNat} dest dest := by
    have hempty : {i | start.toNat + i < start.toNat} = ∅ := by
      ext i
      simp
    exact hempty ▸ .refl
  generalize format.beginCursor converted width height
    (alignDown start (UInt32.ofNat format.tileBytes)) = c at hbegin hzero ⊢
  by_cases haligned : format.tileBytes ∣ start.toNat
  · have hsame : Grid.ceil format.tileBytes start.toNat = start.toNat := Grid.ceil_of_dvd haligned
    have hplace : k * format.tileBytes = start.toNat := by rw [← hk, Grid.floor_of_dvd haligned]
    have hcond : ¬ start < alignUp start (UInt32.ofNat format.tileBytes) := by
      rw [UInt32.lt_iff_toNat_lt, hup, hsame]
      exact lt_irrefl _
    refine ⟨k, (c, dest), by rw [hplace, hsame], by rw [encodeHead, if_neg hcond], hbegin, hplace.ge, ?_, ?_, ?_⟩
    · exact Nat.le_of_mul_le_mul_right (by omega) hpos
    · change c.tiledOffset.toNat = _
      rw [hzero, hplace, Nat.sub_self]
      rfl
    · rwa [hplace, Nat.min_eq_left hrange]
  · have hnext : Grid.ceil format.tileBytes start.toNat = (k + 1) * format.tileBytes := by
      rw [Grid.ceil_of_not_dvd haligned, hk, Nat.succ_mul]
    have hlt : k < columns * rows := Nat.lt_of_succ_le (Nat.le_of_mul_le_mul_right (hnext ▸ hceil) hpos)
    have hcond : start < alignUp start (UInt32.ofNat format.tileBytes) := by
      rw [UInt32.lt_iff_toNat_lt, hup]
      exact lt_of_le_of_ne hstart fun heq => haligned (heq ▸ Grid.dvd_ceil ..)
    have hfirst : (start - alignDown start (UInt32.ofNat format.tileBytes)).toNat =
        start.toNat - k * format.tileBytes := by
      rw [UInt32.toNat_sub_of_le _ _ (by rw [UInt32.le_iff_toNat_le]; omega), hdown, hk]
    have hcount : (min (alignUp start (UInt32.ofNat format.tileBytes)) stop - start).toNat =
        min ((k + 1) * format.tileBytes) stop.toNat - start.toNat := by
      have hmin : (min (alignUp start (UInt32.ofNat format.tileBytes)) stop).toNat =
          min ((k + 1) * format.tileBytes) stop.toNat := by
        rw [← hnext, ← hup]
        exact UInt32.toNat_min ..
      rw [UInt32.toNat_sub_of_le _ _ (by rw [UInt32.le_iff_toNat_le]; omega), hmin]
    have hoffset : (c.tiledOffset + (alignUp start (UInt32.ofNat format.tileBytes) - start)).toNat =
        (k + 1) * format.tileBytes - start.toNat := by
      rw [hzero, UInt32.zero_add, UInt32.toNat_sub_of_le _ _ (UInt32.le_of_lt hcond), hup, hnext]
    have htile := @encodeTileAt_eq depth format converted width height columns rows k linear c h.encodable
      h.image h.linear_size hbegin hlt buffer hbuffer
    obtain ⟨l', hcopy, hpaint⟩ := @copyPart_tile depth format converted columns rows k linear start dest
      start.toNat (min ((k + 1) * format.tileBytes) stop.toNat)
      (by omega) (by omega) (by omega) le_rfl (by omega)
    rw [Nat.sub_self] at hcopy
    have hwalk := hbegin.next h.image hlt (c.tiledOffset + (alignUp start (UInt32.ofNat format.tileBytes) - start))
    refine ⟨k + 1, ⟨_, l'⟩, hnext.symm, ?_, hwalk, by omega, hlt, hoffset,
      painted_upTo hnone hpaint (by omega)⟩
    rw [encodeHead, if_pos hcond, htile, hfirst, hcount, Option.bind_eq_bind, Option.bind_some, hcopy]
    rfl

theorem Reached.next (h : RangeOf format converted columns rows width height start stop linear dest)
    (hr : Reached depth format converted columns rows start stop linear dest k r)
    (hk : (k + 1) * format.tileBytes ≤ stop.toNat) :
    ∃ tiledData, slice r.2 r.1.tiledOffset.toNat format.tileBytes = some tiledData ∧
      format.encodeTileAt depth converted width linear r.1 tiledData =
        some (format.tileCodes depth converted (8 * columns)
          (linear.data.advance (tileStart columns rows k * format.linearBytesPerPixel converted))) ∧
      Reached depth format converted columns rows start stop linear dest (k + 1)
        (format.nextTile converted width height r.1, overwrite r.2 r.1.tiledOffset.toNat
          (format.tileCodes depth converted (8 * columns)
            (linear.data.advance (tileStart columns rows k * format.linearBytesPerPixel converted)))) := by
  have hpos := format.tileBytes_pos
  have hsucc : (k + 1) * format.tileBytes = k * format.tileBytes + format.tileBytes := Nat.succ_mul ..
  have hroom := h.room
  have hrange := h.start_le
  have hstart := hr.start_le
  have htiled := h.image.tiled_lt
  have hbelow := hk.trans h.stop_le
  have hlength := hr.painted.length
  have hlt : k < columns * rows := Nat.lt_of_succ_le (Nat.le_of_mul_le_mul_right hbelow hpos)
  have hbound : k * format.tileBytes - start.toNat + format.tileBytes ≤ r.2.length := by omega
  have hslice : slice r.2 (k * format.tileBytes - start.toNat) format.tileBytes =
      some ((r.2.drop (k * format.tileBytes - start.toNat)).take format.tileBytes) :=
    slice_eq_some.mpr ⟨hbound, rfl⟩
  have htile := @encodeTileAt_eq depth format converted width height columns rows k linear r.1 h.encodable
    h.image h.linear_size hr.onTile hlt _ (length_of_slice hslice)
  have hlengthCodes := @length_tileCodes depth format converted (8 * columns)
    (linear.data.advance (tileStart columns rows k * format.linearBytesPerPixel converted))
  have hpaint : Painted
      (fun i => tiledByte depth format converted columns rows linear.data (start.toNat + i))
      {i | k * format.tileBytes ≤ start.toNat + i ∧ start.toNat + i < (k + 1) * format.tileBytes} r.2
      (overwrite r.2 (k * format.tileBytes - start.toNat) (format.tileCodes depth converted (8 * columns)
        (linear.data.advance (tileStart columns rows k * format.linearBytesPerPixel converted)))) := by
    have harea : {x | k * format.tileBytes - start.toNat ≤ x ∧
        x < k * format.tileBytes - start.toNat + format.tileBytes} =
        {i | k * format.tileBytes ≤ start.toNat + i ∧ start.toNat + i < (k + 1) * format.tileBytes} := by
      ext x
      simp only [Set.mem_ofPred_eq]
      omega
    have hover := @painted_overwrite _
      (fun i => tiledByte depth format converted columns rows linear.data (start.toNat + i)) r.2
      (k * format.tileBytes - start.toNat) (format.tileCodes depth converted (8 * columns)
        (linear.data.advance (tileStart columns rows k * format.linearBytesPerPixel converted)))
      (by rwa [hlengthCodes]) fun j hj => by
        have hsum : start.toNat + (k * format.tileBytes - start.toNat + j) = k * format.tileBytes + j := by omega
        rw [getElem?_tileCodes (hlengthCodes ▸ hj), hsum]
    rwa [hlengthCodes, harea] at hover
  have hpart : {i | start.toNat + i < min ((k + 1) * format.tileBytes) stop.toNat} =
      {i | start.toNat + i < (k + 1) * format.tileBytes} := by
    rw [Nat.min_eq_left hk]
  have hpainted := hr.painted
  rw [Nat.min_eq_left (by omega)] at hpainted
  rw [hr.tiledOffset]
  refine ⟨_, hslice, htile, hr.onTile.next h.image hlt _, by omega, hlt, ?_,
    hpart ▸ painted_upTo hpainted hpaint (by omega)⟩
  change (r.1.tiledOffset + UInt32.ofNat format.tileBytes).toNat = _
  rw [UInt32.toNat_add, hr.tiledOffset, toNat_tileBytes, Nat.mod_eq_of_lt (by omega)]
  omega

theorem Reached.tiledOffset_lt
    (hr : Reached depth format converted columns rows start stop linear dest k r) {m : Nat}
    {bufferEnd : UInt32} (hend : bufferEnd.toNat = m * format.tileBytes - start.toNat) :
    r.1.tiledOffset < bufferEnd ↔ k < m := by
  have hstart := hr.start_le
  rw [UInt32.lt_iff_toNat_lt, hr.tiledOffset, hend, ← Nat.mul_lt_mul_right format.tileBytes_pos (b := k)]
  omega

/-- The loop goes on to the tile that the range has only a part of, if any. -/
theorem encodeTiles_reached (h : RangeOf format converted columns rows width height start stop linear dest)
    {m : Nat} (hm : m * format.tileBytes ≤ stop.toNat) {bufferEnd : UInt32}
    (hend : bufferEnd.toNat = m * format.tileBytes - start.toNat) {rounds : Nat}
    (hr : Reached depth format converted columns rows start stop linear dest k r) (hk : k ≤ m)
    (hrounds : m ≤ k + rounds) :
    ∃ r', format.encodeTiles depth converted width height bufferEnd linear rounds r.1 r.2 = some r' ∧
      Reached depth format converted columns rows start stop linear dest m r' := by
  induction rounds generalizing k r with
  | zero =>
      obtain rfl : k = m := by omega
      refine ⟨r, ?_, hr⟩
      rw [encodeTiles, if_neg ((hr.tiledOffset_lt hend).not.mpr (lt_irrefl _))]
  | succ rounds ih =>
      rcases hk.eq_or_lt with rfl | hlt
      · refine ⟨r, ?_, hr⟩
        rw [encodeTiles, if_neg ((hr.tiledOffset_lt hend).not.mpr (lt_irrefl _))]
      · obtain ⟨tiledData, hslice, htile, hnext⟩ :=
          hr.next h ((Nat.mul_le_mul_right _ hlt).trans hm)
        obtain ⟨r', hr', hreached⟩ := ih hnext hlt (by omega)
        refine ⟨r', ?_, hreached⟩
        rw [encodeTiles, if_pos ((hr.tiledOffset_lt hend).mpr hlt)]
        simp only [hslice, htile, Option.bind_eq_bind, Option.bind_some]
        exact hr'

theorem encodeBody_reached (h : RangeOf format converted columns rows width height start stop linear dest)
    {rounds : Nat} (hrounds : columns * rows ≤ rounds)
    (hr : Reached depth format converted columns rows start stop linear dest k r)
    (hk : k * format.tileBytes = Grid.ceil format.tileBytes start.toNat) :
    ∃ m r', m * format.tileBytes =
        max (Grid.ceil format.tileBytes start.toNat) (Grid.floor format.tileBytes stop.toNat) ∧
      format.encodeBody depth converted rounds width height start stop linear r.1 r.2 = some r' ∧
      Reached depth format converted columns rows start stop linear dest m r' := by
  have hpos := format.tileBytes_pos
  have hup := h.toNat_alignUp
  have hdown := @toNat_alignDown format stop
  have hcond : alignUp start (UInt32.ofNat format.tileBytes) < alignDown stop (UInt32.ofNat format.tileBytes) ↔
      Grid.ceil format.tileBytes start.toNat < Grid.floor format.tileBytes stop.toNat := by
    rw [UInt32.lt_iff_toNat_lt, hup, hdown]
  rcases Nat.lt_or_ge (Grid.ceil format.tileBytes start.toNat) (Grid.floor format.tileBytes stop.toNat) with
    hmore | hend
  · have hfloor := Grid.floor_le format.tileBytes stop.toNat
    have hstart := hr.start_le
    have hroom := h.room
    have hlt := h.dest_lt
    have hlength := hr.painted.length
    obtain ⟨m, hm⟩ := Grid.dvd_floor format.tileBytes stop.toNat
    rw [Nat.mul_comm] at hm
    have hkm : k ≤ m := Nat.le_of_mul_le_mul_right (by omega) hpos
    have hle : m ≤ columns * rows := Nat.le_of_mul_le_mul_right (hm ▸ hfloor.trans h.stop_le) hpos
    have hbufferEnd : (min (r.1.tiledOffset + alignDown stop (UInt32.ofNat format.tileBytes) -
        alignUp start (UInt32.ofNat format.tileBytes)) (UInt32.ofNat r.2.length)).toNat =
        m * format.tileBytes - start.toNat := by
      have hsum : r.1.tiledOffset + alignDown stop (UInt32.ofNat format.tileBytes) -
          alignUp start (UInt32.ofNat format.tileBytes) =
            UInt32.ofNat (m * format.tileBytes - start.toNat) := by
        have hadd : k * format.tileBytes - start.toNat + m * format.tileBytes =
            m * format.tileBytes - start.toNat + k * format.tileBytes := by omega
        rw [eq_ofNat hr.tiledOffset, eq_ofNat (hdown.trans hm), eq_ofNat (hup.trans hk.symm),
          ← UInt32.ofNat_add, hadd, UInt32.ofNat_add, UInt32.add_sub_cancel]
      have hmin := UInt32.toNat_min (r.1.tiledOffset + alignDown stop (UInt32.ofNat format.tileBytes) -
        alignUp start (UInt32.ofNat format.tileBytes)) (UInt32.ofNat r.2.length)
      rw [hmin, hsum, UInt32.toNat_ofNat_of_lt' (by change _ < 2 ^ 32; omega),
        UInt32.toNat_ofNat_of_lt' (by change _ < 2 ^ 32; omega)]
      omega
    obtain ⟨r', hr', hreached⟩ := encodeTiles_reached h (hm ▸ hfloor) hbufferEnd hr hkm
      (show m ≤ k + rounds by omega)
    refine ⟨m, r', by omega, ?_, hreached⟩
    rw [encodeBody, if_pos (hcond.mpr hmore)]
    exact hr'
  · refine ⟨k, r, by omega, ?_, hr⟩
    rw [encodeBody, if_neg (hcond.not.mpr (by omega))]

theorem encodeTail_painted (h : RangeOf format converted columns rows width height start stop linear dest)
    (hbuffer : buffer.length = format.tileBytes)
    (hr : Reached depth format converted columns rows start stop linear dest k r)
    (hk : k * format.tileBytes =
      max (Grid.ceil format.tileBytes start.toNat) (Grid.floor format.tileBytes stop.toNat)) :
    ∃ l', format.encodeTail depth converted width start stop linear buffer r.1 r.2 = some l' ∧
      Painted (fun i => tiledByte depth format converted columns rows linear.data (start.toNat + i))
        {i | start.toNat + i < stop.toNat} dest l' := by
  have hpos := format.tileBytes_pos
  have hup := h.toNat_alignUp
  have hdown := @toNat_alignDown format stop
  have hpainted := hr.painted
  have hmax : (max (alignUp start (UInt32.ofNat format.tileBytes))
      (alignDown stop (UInt32.ofNat format.tileBytes))).toNat = k * format.tileBytes := by
    rw [hk, ← hup, ← hdown]
    exact UInt32.toNat_max ..
  have hcond : max (alignUp start (UInt32.ofNat format.tileBytes))
      (alignDown stop (UInt32.ofNat format.tileBytes)) < stop ↔ k * format.tileBytes < stop.toNat := by
    rw [UInt32.lt_iff_toNat_lt, hmax]
  rcases Nat.lt_or_ge (k * format.tileBytes) stop.toNat with hmore | hend
  · have hplace : Grid.floor format.tileBytes stop.toNat = k * format.tileBytes := by
      have hle : k * format.tileBytes ≤ Grid.floor format.tileBytes stop.toNat :=
        Grid.le_floor (Nat.dvd_mul_left ..) hmore.le
      omega
    have hlast : stop.toNat < k * format.tileBytes + format.tileBytes :=
      hplace ▸ Grid.lt_floor_add hpos
    have hsucc : (k + 1) * format.tileBytes = k * format.tileBytes + format.tileBytes := Nat.succ_mul ..
    have hroom := h.room
    have hlength := hpainted.length
    have hlt : k < columns * rows :=
      Nat.lt_of_mul_lt_mul_right (hmore.trans_le h.stop_le)
    have htile := @encodeTileAt_eq depth format converted width height columns rows k linear r.1 h.encodable
      h.image h.linear_size hr.onTile hlt buffer hbuffer
    have hcount : (stop - alignDown stop (UInt32.ofNat format.tileBytes)).toNat =
        stop.toNat - k * format.tileBytes := by
      rw [UInt32.toNat_sub_of_le _ _ (by rw [UInt32.le_iff_toNat_le]; omega), hdown, hplace]
    obtain ⟨l', hcopy, hpaint⟩ := @copyPart_tile depth format converted columns rows k linear start r.2
      (k * format.tileBytes) stop.toNat le_rfl hmore.le (by omega) hr.start_le (by omega)
    rw [Nat.sub_self] at hcopy
    rw [Nat.min_eq_left hmore.le] at hpainted
    refine ⟨l', ?_, painted_upTo hpainted hpaint hmore.le⟩
    rw [encodeTail, if_pos (hcond.mpr hmore), htile, hcount, hr.tiledOffset, Option.bind_eq_bind,
      Option.bind_some, hcopy]
  · rw [Nat.min_eq_right hend] at hpainted
    refine ⟨r.2, ?_, hpainted⟩
    rw [encodeTail, if_neg (hcond.not.mpr (not_lt.mpr hend))]

theorem mortonCopyToTiled_eq (h : RangeOf format converted columns rows width height start stop linear dest)
    {rounds : Nat} (hrounds : columns * rows ≤ rounds) {headBuf tailBuf : List UInt8}
    (hhead : headBuf.length = format.tileBytes) (htail : tailBuf.length = format.tileBytes) :
    format.mortonCopyToTiled depth converted rounds headBuf tailBuf width height start stop linear dest =
      some ((List.range (stop.toNat - start.toNat)).map
        (fun i => tiledByte depth format converted columns rows linear.data (start.toNat + i)) ++
          dest.drop (stop.toNat - start.toNat)) := by
  obtain ⟨k, r, hk, hr, hreached⟩ := @encodeHead_reached depth format converted width height columns rows
    linear start stop dest headBuf h hhead
  obtain ⟨m, r', hm, hr', hreached'⟩ := encodeBody_reached h hrounds hreached hk
  obtain ⟨l', hl', hpainted⟩ := encodeTail_painted h htail hreached' hm
  have hwritten := hpainted.eq_append (m := stop.toNat - start.toNat)
    (fun i hi => by rw [Set.mem_ofPred_eq]; omega)
    (fun i _ hi => by rw [Set.mem_ofPred_eq] at hi; omega)
  simp only [mortonCopyToTiled, if_neg h.image.width_ne_zero, hr, hr', hl', hwritten, Option.bind_eq_bind, Option.bind_some]

end Range

/-- The whole tiled image. -/
def tiledImage (depth : DepthFloat) (format : SurfaceFormat) (converted : Bool) (columns rows : Nat)
    (linear : Pointer) : List UInt8 :=
  (List.range (columns * rows * format.tileBytes)).map
    (tiledByte depth format converted columns rows linear)

theorem length_tiledImage (linear : Pointer) :
    (tiledImage depth format converted columns rows linear).length = columns * rows * format.tileBytes := by
  rw [tiledImage, List.length_map, List.length_range]

theorem getElem?_tiledImage {linear : Pointer} {i : Nat} (hi : i < columns * rows * format.tileBytes) :
    (tiledImage depth format converted columns rows linear)[i]? =
      some (tiledByte depth format converted columns rows linear i) := by
  rw [tiledImage, List.getElem?_map, List.getElem?_range hi]
  rfl

theorem slice_tiledImage {linear : Pointer} {p q : Nat} (hpq : p ≤ q)
    (hq : q ≤ columns * rows * format.tileBytes) :
    ((tiledImage depth format converted columns rows linear).drop p).take (q - p) =
      (List.range (q - p)).map (fun i => tiledByte depth format converted columns rows linear (p + i)) := by
  refine List.ext_getElem? fun i => ?_
  rcases Nat.lt_or_ge i (q - p) with hi | hi
  · rw [List.getElem?_take_of_lt hi, List.getElem?_drop, getElem?_tiledImage (by omega), List.getElem?_map,
      List.getElem?_range hi]
    rfl
  · rw [List.getElem?_eq_none (by rw [List.length_take]; omega),
      List.getElem?_eq_none (by rw [List.length_map, List.length_range]; omega)]

theorem mortonCopyToTiled_whole
    (himage : TiledImage width height columns rows (format.linearBytesPerPixel converted))
    (hcompressed : ¬ format.IsCompressed)
    (hlinear : 8 * columns * (8 * rows) * format.linearBytesPerPixel converted ≤ linear.size)
    {rounds : Nat} (hrounds : columns * rows ≤ rounds) {headBuf tailBuf blank : List UInt8}
    (hhead : headBuf.length = format.tileBytes) (htail : tailBuf.length = format.tileBytes)
    (hblank : blank.length = columns * rows * format.tileBytes) :
    format.mortonCopyToTiled depth converted rounds headBuf tailBuf width height 0
        (UInt32.ofNat (columns * rows * format.tileBytes)) linear blank =
      some (tiledImage depth format converted columns rows linear.data) := by
  have htiled := himage.tiled_lt
  have hsize : (UInt32.ofNat (columns * rows * format.tileBytes)).toNat =
      columns * rows * format.tileBytes := UInt32.toNat_ofNat_of_lt' htiled
  have hzero : (0 : UInt32).toNat = 0 := rfl
  have hrange : RangeOf format converted columns rows width height 0
      (UInt32.ofNat (columns * rows * format.tileBytes)) linear blank :=
    ⟨himage, hcompressed, hlinear, Nat.zero_le _, hsize.le,
      (Grid.floor_le format.tileBytes 0).trans_lt (by decide), by omega, by omega⟩
  have hwhole := @mortonCopyToTiled_eq depth format converted width height columns rows linear 0
    (UInt32.ofNat (columns * rows * format.tileBytes)) blank hrange rounds hrounds headBuf tailBuf hhead htail
  have hslice := @slice_tiledImage depth format converted columns rows linear.data 0
    (columns * rows * format.tileBytes) (Nat.zero_le _) le_rfl
  rw [hwhole, hsize, hzero, ← hslice, List.drop_zero, Nat.sub_zero, ← hblank, List.drop_length,
    List.append_nil, hblank, List.take_of_length_le (length_tiledImage _).le]

/-- Writing a range of the tiled image is writing the slice of the whole one. -/
theorem mortonCopyToTiled_slice (hcompressed : ¬ format.IsCompressed)
    (hwidth : 8 ∣ width.toNat) (hheight : 8 ∣ height.toNat)
    (hcolumns : 0 < width.toNat) (hrows : 0 < height.toNat)
    (hlinear : width.toNat * height.toNat * format.linearBytesPerPixel converted ≤ linear.size)
    (hfits : width.toNat * height.toNat * format.linearBytesPerPixel converted < 2 ^ 32) :
    let size := width.toNat * height.toNat * format.bpp / 8
    ∃ full : List UInt8, full.length = size ∧
      ∀ (rounds : Nat) (headBuf tailBuf : List UInt8), width.toNat / 8 * (height.toNat / 8) ≤ rounds →
        headBuf.length = format.tileBytes → tailBuf.length = format.tileBytes →
        (∀ blank : List UInt8, blank.length = size →
          format.mortonCopyToTiled depth converted rounds headBuf tailBuf width height 0
            (UInt32.ofNat size) linear blank = some full) ∧
        ∀ (start stop : UInt32) (tiled : List UInt8), start ≤ stop → stop.toNat ≤ size →
          start.toNat / format.tileBytes * format.tileBytes < 2 ^ 29 →
          stop.toNat - start.toNat ≤ tiled.length → tiled.length < 2 ^ 32 →
          format.mortonCopyToTiled depth converted rounds headBuf tailBuf width height start stop
              linear tiled =
            some ((full.drop start.toNat).take (stop.toNat - start.toNat) ++
              tiled.drop (stop.toNat - start.toNat)) := by
  have himage := @tiledImage_of_dvd format converted width height hwidth hheight hcolumns hrows hfits
  have hsize := @tiledBytes_of_dvd format width height hwidth hheight
  have hlinear' : 8 * (width.toNat / 8) * (8 * (height.toNat / 8)) *
      format.linearBytesPerPixel converted ≤ linear.size := by
    rwa [Nat.mul_div_cancel' hwidth, Nat.mul_div_cancel' hheight]
  refine ⟨tiledImage depth format converted (width.toNat / 8) (height.toNat / 8) linear.data,
    by rw [length_tiledImage, hsize], ?_⟩
  intro rounds headBuf tailBuf hrounds hhead htail
  refine ⟨fun blank hblank => ?_, fun start stop tiled hle hstop hstart hroom htiled => ?_⟩
  · rw [hsize] at hblank ⊢
    exact mortonCopyToTiled_whole himage hcompressed hlinear' hrounds hhead htail hblank
  · rw [hsize] at hstop
    have hfloor : Grid.floor format.tileBytes start.toNat =
        start.toNat / format.tileBytes * format.tileBytes := by
      have hdiv := Nat.div_add_mod start.toNat format.tileBytes
      rw [Nat.mul_comm] at hdiv
      rw [Grid.floor]
      omega
    have hrange : RangeOf format converted (width.toNat / 8) (height.toNat / 8) width height start stop
        linear tiled :=
      ⟨himage, hcompressed, hlinear', UInt32.le_iff_toNat_le.mp hle, hstop, hfloor ▸ hstart, hroom, htiled⟩
    rw [mortonCopyToTiled_eq hrange hrounds hhead htail,
      slice_tiledImage (UInt32.le_iff_toNat_le.mp hle) hstop]

/-- Bytes that are others in the lower half of an image of 1 GiB than in the upper one. -/
def halves : Pointer := fun i => if i < 2 ^ 29 then 1 else 2

/-- A byte of the second of two tiles, which the range has with what is behind it. -/
theorem mortonCopyToTiled_slice_tiles :
    ∃ full : List UInt8, full.length = 512 ∧
      (SurfaceFormat.color .RGBA8).mortonCopyToTiled ⟨id, id⟩ true 2 (List.replicate 256 0)
          (List.replicate 256 0) 16 8 100 301 ⟨fun i => UInt8.ofNat (i * 7), 512⟩ (List.replicate 203 9) =
        some ((full.drop 100).take 201 ++ [9, 9]) := by
  obtain ⟨full, hlength, hfull⟩ := @mortonCopyToTiled_slice ⟨id, id⟩ (color .RGBA8) true 16 8
    ⟨fun i => UInt8.ofNat (i * 7), 512⟩ (by decide) (by decide) (by decide) (by decide) (by decide) (by decide)
    (by decide)
  have hpart := (hfull 2 (List.replicate 256 0) (List.replicate 256 0) (by decide) List.length_replicate
    List.length_replicate).2 100 301 (List.replicate 203 9) (by decide) (by decide) (by decide)
    (by rw [List.length_replicate]; decide) (by rw [List.length_replicate]; decide)
  exact ⟨full, hlength, hpart⟩

/-- Behind 512 MiB the bits in front of the range are more than 32 bits count. -/
theorem mortonCopyToTiled_wraps :
    ∃ full : List UInt8,
      (∀ blank : List UInt8, blank.length = 2 ^ 30 →
        (SurfaceFormat.color .RGBA8).mortonCopyToTiled ⟨id, id⟩ false (2 ^ 22) (List.replicate 256 0)
          (List.replicate 256 0) 16384 16384 0 (UInt32.ofNat (2 ^ 30)) ⟨halves, 2 ^ 30⟩ blank = some full) ∧
      full[2 ^ 29]? = some 1 ∧
      (SurfaceFormat.color .RGBA8).mortonCopyToTiled ⟨id, id⟩ false 1 (List.replicate 256 0)
        (List.replicate 256 0) 16384 16384 536870912 536870913 ⟨halves, 2 ^ 30⟩ [0] = some [2] := by
  have himage : TiledImage 16384 16384 2048 2048 ((SurfaceFormat.color .RGBA8).linearBytesPerPixel false) :=
    ⟨by decide, by decide, by decide, by decide, by decide, by decide⟩
  have hwhole := fun blank => @mortonCopyToTiled_whole ⟨id, id⟩ (color .RGBA8) false 16384 16384 2048 2048
    ⟨halves, 2 ^ 30⟩ himage (by decide) (by decide) (2 ^ 22) (by decide) (List.replicate 256 0)
    (List.replicate 256 0) blank List.length_replicate List.length_replicate
  have hbyte : tiledByte ⟨id, id⟩ (color .RGBA8) false 2048 2048 halves (2 ^ 29) = 1 := by decide
  exact ⟨_, hwhole, (getElem?_tiledImage (by decide)).trans (congrArg some hbyte), by decide +kernel⟩

end Cytrus.VideoCore.SurfaceFormat
